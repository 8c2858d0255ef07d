import PiecewiseLinear.Proofs.Script.Walk

/-!
# Walks and the steps that are reached

A walk over a script meets the steps of the script that are reached, in order.

- `reached_append_of_closes`, `reached_append_of_open`: steps in front of others.
- `Walk.ofStmt_eq`, `Walk.ofBody_eq`: walks by the steps that they meet.
- `Function.definition_eq`: the definition of a function by its reached steps.
-/

namespace PiecewiseLinear.Script

/-! ## Reached steps -/

variable {step : Step} {steps more : List Step}

theorem reached_cons :
    reached (step :: steps) = if step.closes then [step] else step :: reached steps := by
  unfold reached
  rw [List.findIdx_cons]
  cases step.closes <;> rfl

/-- Nothing behind a step that closes the script is reached. -/
theorem reached_append_of_closes (h : steps.any Step.closes = true) :
    reached (steps ++ more) = reached steps := by
  induction steps with
  | nil => cases h
  | cons step steps ih =>
    rw [List.cons_append, reached_cons, reached_cons]
    rw [List.any_cons] at h
    cases hstep : step.closes with
    | true => rfl
    | false =>
      rw [hstep] at h
      rw [ih h]

theorem reached_append_of_open (h : steps.any Step.closes = false) :
    reached (steps ++ more) = steps ++ reached more := by
  induction steps with
  | nil => rfl
  | cons step steps ih =>
    rw [List.any_cons, Bool.or_eq_false_iff] at h
    rw [List.cons_append, reached_cons, h.1, ih h.2]
    rfl

/-- The steps of a statement end with the first that closes the script. -/
theorem reached_steps (stmt : Stmt) : reached stmt.steps = stmt.steps := by
  induction stmt using Stmt.induction with
  | cond test value alternative ih =>
    rw [Stmt.steps, reached_cons]
    cases alternative with
    | none => rfl
    | some stmt => exact congrArg (Step.branch test value :: ·) (ih stmt rfl)
  | ret value => rfl
  | assign name value => rfl

/-- A value is reached with every condition, and perhaps one more. -/
theorem length_values_reached (steps : List Step) :
    ((reached steps).filterMap Step.value?).length =
        ((reached steps).filterMap Step.test?).length ∨
      ((reached steps).filterMap Step.value?).length =
        ((reached steps).filterMap Step.test?).length + 1 := by
  induction steps with
  | nil => exact .inl rfl
  | cons step steps ih =>
    rw [reached_cons]
    cases step with
    | branch test value =>
      rcases ih with h | h
      · exact .inl (congrArg (· + 1) h)
      · exact .inr (congrArg (· + 1) h)
    | final value => exact .inr rfl
    | assignment => exact .inl rfl

/-! ## Walks -/

namespace Walk

variable {param : String}

/-- The walk that meets the given steps. -/
def ofSteps (param : String) (steps : List Step) : Walk :=
  ⟨(steps.filterMap Step.test?).map (Expr.toGuard param),
    (steps.filterMap Step.value?).map (Expr.toFormula param), steps.any Step.closes⟩

theorem ofSteps_append (h : steps.any Step.closes = false) :
    ofSteps param (steps ++ more) = (ofSteps param steps).append (ofSteps param more) := by
  unfold ofSteps append
  rw [List.filterMap_append, List.map_append, List.filterMap_append, List.map_append,
    List.any_append, h, Bool.false_or]

/-- The walk over a statement meets its steps. -/
theorem ofStmt_eq (stmt : Stmt) : ofStmt param stmt = ofSteps param stmt.steps := by
  induction stmt using Stmt.induction with
  | cond test value alternative ih =>
    have halternative :
        ofAlternative param alternative = ofSteps param (Stmt.alternativeSteps alternative) := by
      cases alternative with
      | none => rfl
      | some stmt => exact ih stmt rfl
    rw [ofStmt, halternative]
    rfl
  | ret value => rfl
  | assign name value => rfl

/-- The walk over a body meets the steps that are reached. -/
theorem ofBody_eq (body : List Stmt) :
    ofBody param body = ofSteps param (reached (body.flatMap Stmt.steps)) := by
  induction body with
  | nil => rfl
  | cons stmt rest ih =>
    rw [List.flatMap_cons]
    have hstmt : (ofStmt param stmt).closed = stmt.steps.any Step.closes :=
      congrArg Walk.closed (ofStmt_eq stmt)
    cases h : stmt.steps.any Step.closes with
    | true =>
      rw [ofBody_of_closed (hstmt.trans h), reached_append_of_closes h, reached_steps, ofStmt_eq]
    | false =>
      rw [ofBody_of_open (hstmt.trans h), reached_append_of_open h, ofSteps_append h, ofStmt_eq, ih]

end Walk

/-! ## Definitions -/

namespace Function

/-- Bodies from which no definition comes: empty ones and those that begin with an
assignment. -/
def StartsNowhere (f : Function) : Prop :=
  f.body = [] ∨ ∃ name value rest, f.body = .assign name value :: rest

/-- The guards and formulas that a function offers in its reached steps. -/
def offered (f : Function) : Definition :=
  ⟨f.name, f.tests.map (Expr.toGuard f.param), f.values.map (Expr.toFormula f.param)⟩

variable {f : Function}

/-- A function starts nowhere if and only if no condition and no value is reached. -/
theorem startsNowhere_iff : f.StartsNowhere ↔ f.tests = [] ∧ f.values = [] := by
  obtain ⟨name, param, body⟩ := f
  unfold StartsNowhere tests values steps
  cases body with
  | nil => simp [reached]
  | cons stmt rest =>
    cases stmt with
    | cond test value alternative => simp [Stmt.steps, reached_cons, Step.closes, Step.test?]
    | ret value => simp [Stmt.steps, reached_cons, Step.closes, Step.value?]
    | assign name value =>
      simp [Stmt.steps, reached_cons, Step.closes, Step.test?, Step.value?]

/-- The definition of a function is what its reached steps offer, unless they offer nothing. -/
theorem definition_eq (f : Function) :
    f.definition = if f.tests = [] ∧ f.values = [] then .error ⟨f.name⟩ else .ok f.offered := by
  unfold definition
  dsimp only
  rw [Walk.ofBody_eq]
  simp [Walk.ofSteps, offered, tests, values, steps, List.isEmpty_iff]

end Function

end PiecewiseLinear.Script
