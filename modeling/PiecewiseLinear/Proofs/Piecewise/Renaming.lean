import PiecewiseLinear.Proofs.Piecewise.Wording
import PiecewiseLinear.Proofs.Script.Steps
import PiecewiseLinear.Script.Rename

/-!
# Names do not matter

The parameter of a function may have any name that its expressions do not mention otherwise, and
neither the name of the function nor the names that are assigned to have a say in what the
function compiles to.

- `Expr.toGuard_rename`, `Expr.toFormula_rename`: expressions under another name for the
  parameter.
- `Function.Alike`: functions that compile to the same, or fail alike.
- `Function.compiled_renamed`: functions that differ in their names only are alike.
-/

namespace PiecewiseLinear.Script

variable {p q : String} {e : Expr}

/-! ## Expressions -/

namespace Expr

theorem linkIdentifiers_eq_flatMap (links : List (Comparator × Expr)) :
    linkIdentifiers links = links.flatMap (·.2.identifiers) := by
  induction links with
  | nil => rfl
  | cons l links ih => rw [linkIdentifiers, ih, List.flatMap_cons]

theorem operandIdentifiers_eq_flatMap (operands : List Expr) :
    operandIdentifiers operands = operands.flatMap identifiers := by
  induction operands with
  | nil => rfl
  | cons e operands ih => rw [operandIdentifiers, ih, List.flatMap_cons]

theorem renameLinks_eq_map (links : List (Comparator × Expr)) :
    renameLinks p q links = links.map fun l => (l.1, l.2.rename p q) := by
  induction links with
  | nil => rfl
  | cons l links ih => rw [renameLinks, ih, List.map_cons]

theorem renameOperands_eq_map (operands : List Expr) :
    renameOperands p q operands = operands.map (rename p q) := by
  induction operands with
  | nil => rfl
  | cons e operands ih => rw [renameOperands, ih, List.map_cons]

/-- An operand does not hang on the name of the parameter, but for the sources that it quotes. The
new name must be a fresh one, or it would turn a foreign name into the argument. -/
theorem toOperand_rename (h : q ∉ e.identifiers) :
    ((e.rename p q).toOperand q).bare = (e.toOperand p).bare := by
  induction e using induction with
  | ident name =>
    rw [identifiers, List.mem_singleton] at h
    rw [rename, toOperand, toOperand]
    by_cases hname : name = p
    · rw [if_pos hname, if_pos rfl, if_pos hname]
    · -- another name stays, and is not the new one of the parameter
      rw [if_neg hname, if_neg (Ne.symm h), if_neg hname]
  | unary op operand ih =>
    cases op with
    | neg => exact congrArg Operand.neg (ih h)
    | pos => exact ih h
    | not => rfl
  | number | binary | compare | junction | call => rfl

theorem bareGuards_toGuards_rename {es : List Expr}
    (h : ∀ e ∈ es, ((e.rename p q).toGuard q).bare = (e.toGuard p).bare) :
    Guard.bareGuards (toGuards q (renameOperands p q es)) = Guard.bareGuards (toGuards p es) := by
  rw [Guard.bareGuards_eq_map, Guard.bareGuards_eq_map, toGuards_eq_map, toGuards_eq_map,
    renameOperands_eq_map, List.map_map, List.map_map, List.map_map]
  exact List.map_congr_left h

/-- A guard does not hang on the name of the parameter, but for the sources that it quotes. -/
theorem toGuard_rename (h : q ∉ e.identifiers) :
    ((e.rename p q).toGuard q).bare = (e.toGuard p).bare := by
  induction e using induction with
  | compare first links =>
    rw [identifiers, List.mem_append, not_or, linkIdentifiers_eq_flatMap, List.mem_flatMap] at h
    have hlinks : ∀ l ∈ links,
        ((l.2.rename p q).toOperand q).bare = (l.2.toOperand p).bare :=
      fun l hl => toOperand_rename fun hmem => h.2 ⟨l, hl, hmem⟩
    rw [rename, toGuard, toGuard, Guard.bare, Guard.bare, Comparison.bare, Comparison.bare,
      toOperand_rename h.1, renameLinks_eq_map]
    simp only [List.map_map]
    refine congrArg (Guard.compare ⟨_, ·⟩) (List.map_congr_left fun l hl => ?_)
    exact congrArg (l.1, ·) (hlinks l hl)
  | junction connective operands ih =>
    rw [identifiers, operandIdentifiers_eq_flatMap, List.mem_flatMap] at h
    have hoperands := bareGuards_toGuards_rename fun e he => ih e he fun hmem => h ⟨e, he, hmem⟩
    cases connective with
    | and => exact congrArg Guard.all hoperands
    | or => exact congrArg Guard.any hoperands
  | ident | number | unary | binary | call => rfl

/-- A formula does not hang on the name of the parameter, but for the sources that it quotes. -/
theorem toFormula_rename (h : q ∉ e.identifiers) :
    ((e.rename p q).toFormula q).bare = (e.toFormula p).bare := by
  induction e using induction with
  | ident name =>
    rw [identifiers, List.mem_singleton] at h
    rw [rename, toFormula, toFormula]
    by_cases hname : name = p
    · rw [if_pos hname, if_pos rfl, if_pos hname]
    · rw [if_neg hname, if_neg (Ne.symm h), if_neg hname]
  | unary op operand ih =>
    cases op with
    | neg => exact congrArg Formula.neg (ih h)
    | pos => exact ih h
    | not => rfl
  | binary lhs op rhs ihlhs ihrhs =>
    rw [identifiers, List.mem_append, not_or] at h
    cases op with
    | arith op =>
      rw [rename, toFormula, toFormula, Formula.bare, Formula.bare, ihlhs h.1, ihrhs h.2]
    | mod | pow => rfl
  | number | compare | junction | call => rfl

end Expr

/-! ## Steps -/

namespace Step

/-- A step with one name for another in its expressions. -/
def rename (p q : String) : Step → Step
  | branch test value => branch (test.rename p q) (value.rename p q)
  | final value => final (value.rename p q)
  | assignment => assignment

theorem closes_rename (step : Step) : (step.rename p q).closes = step.closes := by
  cases step <;> rfl

theorem test?_rename (step : Step) :
    (step.rename p q).test? = step.test?.map (Expr.rename p q) := by
  cases step <;> rfl

theorem value?_rename (step : Step) :
    (step.rename p q).value? = step.value?.map (Expr.rename p q) := by
  cases step <;> rfl

end Step

/-- A new name for the parameter changes the expressions in the steps and nothing else. -/
theorem steps_rename (stmt : Stmt) :
    (stmt.rename p q).steps = stmt.steps.map (Step.rename p q) := by
  induction stmt using Stmt.induction with
  | cond test value alternative ih =>
    cases alternative with
    | none => rfl
    | some stmt => exact congrArg (Step.branch _ _ :: ·) (ih stmt rfl)
  | ret value => rfl
  | assign name value => rfl

/-- Which names are assigned to is not among the steps. -/
theorem steps_unnamed (stmt : Stmt) : stmt.unnamed.steps = stmt.steps := by
  induction stmt using Stmt.induction with
  | cond test value alternative ih =>
    cases alternative with
    | none => rfl
    | some stmt => exact congrArg (Step.branch _ _ :: ·) (ih stmt rfl)
  | ret value => rfl
  | assign name value => rfl

/-- The same steps are reached under a new name. -/
theorem reached_rename (steps : List Step) :
    reached (steps.map (Step.rename p q)) = (reached steps).map (Step.rename p q) := by
  induction steps with
  | nil => rfl
  | cons step steps ih =>
    rw [List.map_cons, reached_cons, reached_cons, Step.closes_rename, ih]
    split_ifs <;> rfl

/-- The expressions of a step are expressions of its statement. -/
theorem mem_exprs_of_mem_steps {stmt : Stmt} {step : Step} (h : step ∈ stmt.steps) :
    (∀ e ∈ step.test?, e ∈ stmt.exprs) ∧ ∀ e ∈ step.value?, e ∈ stmt.exprs := by
  induction stmt using Stmt.induction with
  | cond test value alternative ih =>
    rw [Stmt.steps, List.mem_cons] at h
    cases alternative with
    | none =>
      obtain rfl := h.resolve_right List.not_mem_nil
      simp [Step.test?, Step.value?, Stmt.exprs]
    | some stmt =>
      rcases h with rfl | h
      · simp [Step.test?, Step.value?, Stmt.exprs]
      · obtain ⟨htest, hvalue⟩ := ih stmt rfl h
        rw [Stmt.exprs]
        exact ⟨fun e he => List.mem_cons_of_mem _ (List.mem_cons_of_mem _ (htest e he)),
          fun e he => List.mem_cons_of_mem _ (List.mem_cons_of_mem _ (hvalue e he))⟩
  | ret value =>
    obtain rfl := List.mem_singleton.mp h
    simp [Step.test?, Step.value?, Stmt.exprs]
  | assign name value =>
    obtain rfl := List.mem_singleton.mp h
    simp [Step.test?, Step.value?]

namespace Function

variable {f g : Function}

theorem steps_rename (f : Function) (q : String) :
    (f.rename q).steps = f.steps.map (Step.rename f.param q) := by
  rw [steps, steps, rename, List.flatMap_map, List.map_flatMap]
  simp only [Script.steps_rename]

/-- What is reached under another name is what is reached, renamed. -/
theorem filterMap_reached_rename {part? : Step → Option Expr} (f : Function)
    (h : ∀ step : Step, part? (step.rename f.param q) = (part? step).map (Expr.rename f.param q)) :
    (reached (f.rename q).steps).filterMap part? =
      ((reached f.steps).filterMap part?).map (Expr.rename f.param q) := by
  rw [steps_rename, reached_rename, List.filterMap_map, List.map_filterMap]
  exact List.filterMap_congr fun step _ => h step

/-- Every condition that is reached, and every value, is an expression of the function. -/
theorem mentions_of_mem_reached {step : Step} (hstep : step ∈ reached f.steps)
    (he : e ∈ step.test? ∨ e ∈ step.value?) (hq : q ∈ e.identifiers) : f.Mentions q := by
  obtain ⟨stmt, hstmt, hmem⟩ := List.mem_flatMap.mp (List.mem_of_mem_take hstep)
  have hexprs := mem_exprs_of_mem_steps hmem
  exact ⟨stmt, hstmt, e, he.elim (hexprs.1 e) (hexprs.2 e), hq⟩

/-! ## Functions -/

/-- The piecewise function of a function, by way of its definition. -/
def compiled (f : Function) : Except BuildError Piecewise := do
  (← f.definition.mapError .malformed).compile

/-- Two functions compile to the same piecewise function, with the same regions and the same
values, or both fail for the same reason, where only names and sources that are quoted differ. -/
structure Alike (f g : Function) : Prop where
  definition : (∃ d, f.definition = .ok d) ↔ ∃ d, g.definition = .ok d
  ok : ∀ p, f.compiled = .ok p ↔ g.compiled = .ok p
  error : ∀ e, f.compiled = .error e → ∃ e', g.compiled = .error e' ∧ e'.bare = e.bare

theorem alike_of_mapError_eq (hdefinition : (∃ d, f.definition = .ok d) ↔ ∃ d, g.definition = .ok d)
    (h : f.compiled.mapError BuildError.bare = g.compiled.mapError .bare) : f.Alike g := by
  refine ⟨hdefinition, ?_, ?_⟩
  · intro p
    rw [← mapError_eq_ok_iff (f := BuildError.bare), h, mapError_eq_ok_iff]
  · intro e he
    exact mapError_eq_error_iff.mp (h ▸ mapError_eq_error_iff.mpr ⟨e, he, rfl⟩)

/-- A function offers nothing when nothing is left of what it offers without what is quoted. -/
theorem offersNothing_iff (f : Function) :
    f.tests = [] ∧ f.values = [] ↔ f.offered.bare = .empty "" := by
  simp [offered, Definition.bare, Definition.empty]

/-- Either a function offers nothing and has no definition, or its definition is what it
offers. -/
theorem definition_cases (f : Function) :
    (f.offered.bare = .empty "" ∧ f.definition = .error ⟨f.name⟩) ∨
      (f.offered.bare ≠ .empty "" ∧ f.definition = .ok f.offered) := by
  rw [Ne, ← offersNothing_iff, definition_eq]
  by_cases h : f.tests = [] ∧ f.values = []
  · exact .inl ⟨h, if_pos h⟩
  · exact .inr ⟨h, if_neg h⟩

/-- Functions are alike when they offer the same but for what is only quoted. -/
theorem alike_of_offered (h : f.offered.bare = g.offered.bare) : f.Alike g := by
  rcases definition_cases f with ⟨hf, hdefinition⟩ | ⟨hf, hdefinition⟩ <;>
    rcases definition_cases g with ⟨hg, hdefinition'⟩ | ⟨hg, hdefinition'⟩
  · refine alike_of_mapError_eq ?_ ?_
    · rw [hdefinition, hdefinition']
      exact iff_of_false nofun nofun
    · rw [compiled, compiled, hdefinition, hdefinition']
      rfl
  · exact absurd (h ▸ hf) hg
  · exact absurd (h ▸ hg) hf
  · refine alike_of_mapError_eq ?_ ?_
    · rw [hdefinition, hdefinition']
      exact iff_of_true ⟨_, rfl⟩ ⟨_, rfl⟩
    · have hcompile :
          f.offered.compile.mapError BuildError.bare = g.offered.compile.mapError .bare := by
        rw [← Definition.compile_bare, h, Definition.compile_bare]
      rw [compiled, compiled, hdefinition, hdefinition']
      exact hcompile

/-- Parts that are reached become the same under the new name, but for what is only quoted. -/
theorem map_reached_rename {α β : Type} {part? : Step → Option Expr} {as : String → Expr → α}
    {bare : α → β} (f : Function)
    (hpart : ∀ step : Step, part? (step.rename f.param q) =
      (part? step).map (Expr.rename f.param q))
    (has : ∀ e ∈ (reached f.steps).filterMap part?,
      bare (as q (e.rename f.param q)) = bare (as f.param e)) :
    (((reached (f.rename q).steps).filterMap part?).map (as q)).map bare =
      (((reached f.steps).filterMap part?).map (as f.param)).map bare := by
  rw [filterMap_reached_rename f hpart, List.map_map, List.map_map, List.map_map]
  exact List.map_congr_left has

/-- A function offers the same guards and formulas under a fresh name of its parameter, but for the
sources that they quote. -/
theorem offered_rename (hq : ¬ f.Mentions q) : (f.rename q).offered.bare = f.offered.bare := by
  have hfresh {part? : Step → Option Expr}
      (hpart : ∀ step : Step, ∀ e ∈ part? step, e ∈ step.test? ∨ e ∈ step.value?) :
      ∀ e ∈ (reached f.steps).filterMap part?, q ∉ e.identifiers := by
    intro e he hmem
    obtain ⟨step, hstep, hsome⟩ := List.mem_filterMap.mp he
    exact hq (mentions_of_mem_reached hstep (hpart step e hsome) hmem)
  have hguards : (f.rename q).offered.guards.map Guard.bare = f.offered.guards.map Guard.bare :=
    map_reached_rename f Step.test?_rename fun e he =>
      Expr.toGuard_rename (hfresh (fun _ _ => .inl) e he)
  have hformulas :
      (f.rename q).offered.formulas.map Formula.bare = f.offered.formulas.map Formula.bare :=
    map_reached_rename f Step.value?_rename fun e he =>
      Expr.toFormula_rename (hfresh (fun _ _ => .inr) e he)
  rw [Definition.bare, Definition.bare, hguards, hformulas]

theorem steps_eq_of_unnamed (h : g.body.map Stmt.unnamed = f.body.map Stmt.unnamed) :
    g.steps = f.steps := by
  have hsteps (body : List Stmt) :
      (body.map Stmt.unnamed).flatMap Stmt.steps = body.flatMap Stmt.steps := by
    rw [List.flatMap_map]
    exact List.flatMap_congr fun stmt _ => steps_unnamed stmt
  rw [steps, steps, ← hsteps, h, hsteps]

/-- **Names do not matter.** A function is alike to what it becomes under any name of its
parameter that no expression mentions, and to every function that differs from it only in its own
name and in the names that are assigned to. -/
theorem compiled_renamed (f : Function) :
    (∀ q, ¬ f.Mentions q → (f.rename q).Alike f) ∧
      ∀ g : Function, g.param = f.param → g.body.map Stmt.unnamed = f.body.map Stmt.unnamed →
        g.Alike f := by
  constructor
  · intro q hq
    exact alike_of_offered (offered_rename hq)
  · intro g hparam hbody
    refine alike_of_offered ?_
    have hsteps := steps_eq_of_unnamed hbody
    rw [offered, offered, tests, tests, values, values, hsteps, hparam]
    rfl

/-- A condition, a value and an assignment under another name for the parameter, and with other
names for the function and for what is assigned to. -/
theorem compiled_renamed_assignment :
    (rename ⟨"f", "x", [.cond (.compare (.ident "x") [(.gt, .number 0)]) (.ident "x") none,
        .assign "y" (.ident "x")]⟩ "t").Alike
      ⟨"f", "x", [.cond (.compare (.ident "x") [(.gt, .number 0)]) (.ident "x") none,
        .assign "y" (.ident "x")]⟩ ∧
    Alike ⟨"g", "x", [.cond (.compare (.ident "x") [(.gt, .number 0)]) (.ident "x") none,
        .assign "z" (.ident "x")]⟩
      ⟨"f", "x", [.cond (.compare (.ident "x") [(.gt, .number 0)]) (.ident "x") none,
        .assign "y" (.ident "x")]⟩ := by
  obtain ⟨hparam, hnames⟩ := compiled_renamed
    ⟨"f", "x", [.cond (.compare (.ident "x") [(.gt, .number 0)]) (.ident "x") none,
      .assign "y" (.ident "x")]⟩
  refine ⟨hparam "t" ?_, hnames _ rfl rfl⟩
  simp [Mentions, Stmt.exprs, Expr.identifiers, Expr.linkIdentifiers]

end Function

end PiecewiseLinear.Script
