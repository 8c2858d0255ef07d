import PiecewiseLinear.Piecewise.Compile
import PiecewiseLinear.Proofs.Guard.Region

/-!
# What only words an error

The source that guards and formulas keep of their unsupported parts is quoted when they are
refused, and serves nothing else. Two definitions that differ in it alone compile to the same
function, or fail alike.

- `Definition.bare`, `BuildError.bare`: definitions and errors without what they quote.
- `Guard.region_bare`, `Formula.toFunction_bare`: the parts of a definition.
- `Definition.compile_bare`: whole definitions.
-/

namespace PiecewiseLinear

/-! ## Definitions and errors without what they quote -/

/-- An operand without its source. -/
def Operand.bare : Operand → Operand
  | argument => argument
  | constant v => constant v
  | neg operand => neg operand.bare
  | unsupported _ => unsupported ""

/-- A comparison without the sources of its operands. -/
def Comparison.bare (c : Comparison) : Comparison :=
  ⟨c.first.bare, c.links.map fun (op, operand) => (op, operand.bare)⟩

mutual

/-- A guard without the sources of its parts. -/
def Guard.bare : Guard → Guard
  | .all children => .all (bareGuards children)
  | .any children => .any (bareGuards children)
  | .compare c => .compare c.bare
  | .unsupported _ => .unsupported ""

/-- Guards without the sources of their parts. -/
def Guard.bareGuards : List Guard → List Guard
  | [] => []
  | g :: gs => g.bare :: bareGuards gs

end

/-- A formula without the sources of its parts. -/
def Formula.bare : Formula → Formula
  | constant v => constant v
  | argument => argument
  | neg inner => neg inner.bare
  | arith lhs op rhs => arith lhs.bare op rhs.bare
  | unsupported _ => unsupported ""

/-- A definition without its name and the sources of its parts. -/
def Definition.bare (d : Definition) : Definition :=
  ⟨"", d.guards.map Guard.bare, d.formulas.map Formula.bare⟩

/-- What is wrong with a comparison, without the source that is quoted. -/
def ComparisonFault.bare : ComparisonFault → ComparisonFault
  | foreignOperand _ => foreignOperand ""
  | fault => fault

/-- Why a guard is refused, without the sources that are quoted. -/
def GuardError.bare : GuardError → GuardError
  | notComparison _ => notComparison ""
  | malformed _ fault => malformed "" fault.bare

/-- Why a formula is refused, without the source that is quoted. -/
def FormulaError.bare : FormulaError → FormulaError
  | negatedOperation _ => negatedOperation ""
  | argumentInDenominator _ => argumentInDenominator ""
  | notLinear _ => notLinear ""
  | foreign _ => foreign ""
  | divisionByZero _ => divisionByZero ""

/-- Why a guard or a formula is refused, without the sources that are quoted. -/
def PartError.bare : PartError → PartError
  | guard e => guard e.bare
  | formula e => formula e.bare

/-- What can go wrong, without the names and sources that are quoted. Where a text cannot be
read and which branches overlap is kept. -/
def BuildError.bare : BuildError → BuildError
  | parse e => parse e
  | malformed _ => malformed ⟨""⟩
  | part e => part e.bare
  | assembly e => assembly e

/-! ## Errors that are reworded -/

section Reworded

variable {ε ε' δ δ' α β γ : Type} {f : ε → ε'}

theorem mapError_bind (x : Except ε α) (k : α → Except ε β) :
    (x >>= k).mapError f = x.mapError f >>= fun a => (k a).mapError f := by
  cases x <;> rfl

/-- Two passes come to the same up to the wording when their first parts do and, behind equal
results, their second parts. -/
theorem mapError_bind_congr {x y : Except ε α} {k l : α → Except ε β}
    (h : x.mapError f = y.mapError f) (h' : ∀ a, (k a).mapError f = (l a).mapError f) :
    (x >>= k).mapError f = (y >>= l).mapError f := by
  rw [mapError_bind, mapError_bind, h, funext h']

/-- Passes over a list come to the same up to the wording when those over each of its items do. -/
theorem mapError_mapM_congr {k : α → Except ε β} {l : γ → Except ε β} {w : γ → α} {as : List γ}
    (h : ∀ a ∈ as, (k (w a)).mapError f = (l a).mapError f) :
    ((as.map w).mapM k).mapError f = (as.mapM l).mapError f := by
  induction as with
  | nil => rfl
  | cons a as ih =>
    rw [List.forall_mem_cons] at h
    rw [List.map_cons, List.mapM_cons, List.mapM_cons]
    refine mapError_bind_congr h.1 fun b => ?_
    exact mapError_bind_congr (ih h.2) fun _ => rfl

/-- Passes that come to the same up to the wording do so inside a larger pass, whose wording of
their errors hangs on that wording only. -/
theorem mapError_wrapped_congr {x y : Except ε α} {u v : ε → δ} {g : δ → δ'} (w : ε' → δ')
    (h : x.mapError f = y.mapError f) (hu : ∀ e, g (u e) = w (f e)) (hv : ∀ e, g (v e) = w (f e)) :
    (x.mapError u).mapError g = (y.mapError v).mapError g := by
  have hwrap (z : Except ε α) (t : ε → δ) (ht : ∀ e, g (t e) = w (f e)) :
      (z.mapError t).mapError g = (z.mapError f).mapError w := by
    cases z with
    | error e => exact congrArg Except.error (ht e)
    | ok a => rfl
  rw [hwrap x u hu, hwrap y v hv, h]

end Reworded

/-! ## Guards -/

theorem Operand.side_bare (operand : Operand) :
    operand.bare.side.mapError ComparisonFault.bare = operand.side.mapError .bare := by
  induction operand with
  | argument | constant | unsupported => rfl
  | neg operand ih =>
    exact mapError_bind_congr ih fun _ => rfl

/-- Whether a comparison has a region, which one, and what is wrong with it otherwise do not hang on
the sources in it. -/
theorem Comparison.region?_bare (c : Comparison) :
    c.bare.region?.mapError ComparisonFault.bare = c.region?.mapError .bare := by
  obtain ⟨first, links⟩ := c
  match links with
  | [] => rfl
  | [(op, rhs)] =>
    exact mapError_bind_congr first.side_bare fun _ =>
      mapError_bind_congr rhs.side_bare fun _ => rfl
  | [(op₀, middle), (op₁, outer)] =>
    refine mapError_bind_congr middle.side_bare ?_
    rintro (_ | v)
    · exact mapError_bind_congr first.side_bare fun _ =>
        mapError_bind_congr outer.side_bare fun _ => rfl
    · rfl
  | _ :: _ :: _ :: links =>
    -- the terms are only counted
    show Except.error (ComparisonFault.termCount _) = Except.error (ComparisonFault.termCount _)
    simp [termCount, bare]

theorem Comparison.region_bare (c : Comparison) :
    c.bare.region.mapError GuardError.bare = c.region.mapError .bare :=
  mapError_wrapped_congr (GuardError.malformed "") c.region?_bare (fun _ => rfl) fun _ => rfl

namespace Guard

theorem bareGuards_eq_map (gs : List Guard) : bareGuards gs = gs.map bare := by
  induction gs with
  | nil => rfl
  | cons g gs ih => rw [bareGuards, ih, List.map_cons]

/-- The region of a guard does not hang on its sources, nor does the reason to refuse it. -/
theorem region_bare (g : Guard) :
    g.bare.region.mapError GuardError.bare = g.region.mapError .bare := by
  induction g using induction with
  | all children ih =>
    refine mapError_bind_congr ?_ fun _ => rfl
    rw [bareGuards_eq_map, regions_eq_mapM, regions_eq_mapM]
    exact mapError_mapM_congr ih
  | any children ih =>
    refine mapError_bind_congr ?_ fun _ => rfl
    rw [bareGuards_eq_map, regions_eq_mapM, regions_eq_mapM]
    exact mapError_mapM_congr ih
  | compare c => exact c.region_bare
  | unsupported source => rfl

theorem regions_bare (gs : List Guard) :
    (regions (gs.map bare)).mapError GuardError.bare = (regions gs).mapError .bare := by
  rw [regions_eq_mapM, regions_eq_mapM]
  exact mapError_mapM_congr fun g _ => g.region_bare

end Guard

/-! ## Formulas -/

namespace Formula

/-- The value of a formula does not hang on its sources. -/
theorem valueIn_bare {α : Type} (system : Arithmetic α) (x : α) (formula : Formula) :
    formula.bare.valueIn system x = formula.valueIn system x := by
  induction formula with
  | constant | argument | unsupported => rfl
  | neg inner ih => rw [bare, valueIn, valueIn, ih]
  | arith lhs op rhs ihlhs ihrhs => rw [bare, valueIn, valueIn, ihlhs, ihrhs]

/-- The degree of a formula does not hang on the sources in it, and neither does the reason to
refuse it. -/
theorem degreeIn_bare {α : Type} (system : Arithmetic α) (formula : Formula) :
    (formula.bare.degreeIn system).mapError FormulaError.bare =
      (formula.degreeIn system).mapError .bare := by
  induction formula with
  | constant | argument | unsupported => rfl
  | neg inner =>
    -- the sign is looked at together with what stands behind it
    cases inner <;> rfl
  | arith lhs op rhs ihlhs ihrhs =>
    refine mapError_bind_congr ihlhs fun left => mapError_bind_congr ihrhs fun right => ?_
    cases op with
    | add | sub => rfl
    | mul =>
      dsimp only
      split_ifs <;> rfl
    | div =>
      dsimp only
      rw [valueIn_bare]
      split_ifs <;> rfl

/-- The function of a formula does not hang on its sources, nor does the reason to refuse it. -/
theorem toFunction_bare (formula : Formula) :
    formula.bare.toFunction.mapError FormulaError.bare = formula.toFunction.mapError .bare := by
  refine mapError_bind_congr (formula.degreeIn_bare .double) fun _ => ?_
  exact congrArg Except.ok (funext fun x => formula.valueIn_bare .double x)

end Formula

/-! ## Definitions -/

namespace Definition

theorem domains_bare (d : Definition) :
    d.bare.domains.mapError PartError.bare = d.domains.mapError .bare :=
  mapError_wrapped_congr PartError.guard (Guard.regions_bare d.guards) (fun _ => rfl) fun _ => rfl

theorem values_bare (d : Definition) :
    d.bare.values.mapError PartError.bare = d.values.mapError .bare := by
  have hformulas : (d.bare.formulas.mapM Formula.toFunction).mapError FormulaError.bare =
      (d.formulas.mapM Formula.toFunction).mapError .bare :=
    mapError_mapM_congr fun formula _ => formula.toFunction_bare
  exact mapError_wrapped_congr PartError.formula hformulas (fun _ => rfl) fun _ => rfl

/-- **What a definition quotes only words its errors.** -/
theorem compile_bare (d : Definition) :
    d.bare.compile.mapError BuildError.bare = d.compile.mapError .bare := by
  refine mapError_bind_congr ?_ fun rs => mapError_bind_congr ?_ fun vs => rfl
  · exact mapError_wrapped_congr BuildError.part d.domains_bare (fun _ => rfl) fun _ => rfl
  · exact mapError_wrapped_congr BuildError.part d.values_bare (fun _ => rfl) fun _ => rfl

end Definition

end PiecewiseLinear
