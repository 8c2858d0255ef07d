import PiecewiseLinear.Definition.Basic
import PiecewiseLinear.Script.Basic

/-!
# Guards and formulas as expressions

A guard or a formula in print says what an expression of scripts says, with `x` for the
argument.

- `Operand.toExpr`, `Comparison.toExpr`, `Guard.toExpr`, `Formula.toExpr`: that expression.
- `Operand.WellFormed`, `Guard.WellFormed`, `Formula.WellFormed`: the trees all of whose parts
  can be written. Built by hand, a tree may hold numbers that no literal denotes, chains without
  a link and junctions of fewer than two conditions.

What is kept as text is taken for a name here, and so has the same text.
-/

namespace PiecewiseLinear

open Script (Expr)

/-! ## Operands and comparisons -/

/-- An operand as an expression. -/
def Operand.toExpr : Operand → Expr
  | argument => .ident "x"
  | constant v => .number v
  | neg operand => .unary .neg operand.toExpr
  | unsupported source => .ident source

/-- A chain of comparisons as an expression. -/
def Comparison.toExpr (c : Comparison) : Expr :=
  .compare c.first.toExpr (c.links.map fun link => (link.1, link.2.toExpr))

/-- Operands that can be written. -/
inductive Operand.WellFormed : Operand → Prop where
  | argument : WellFormed argument
  | constant {v : Float} (hfinite : v.isFinite = true) (hsign : Double.isNegative v = false) :
      WellFormed (constant v)
  | neg {operand : Operand} (h : WellFormed operand) : WellFormed (neg operand)

/-- Chains of comparisons that can be written. -/
structure Comparison.WellFormed (c : Comparison) : Prop where
  first : c.first.WellFormed
  links_ne_nil : c.links ≠ []
  links : ∀ link ∈ c.links, link.2.WellFormed

/-! ## Guards -/

namespace Guard

mutual

/-- A guard as an expression. -/
def toExpr : Guard → Expr
  | all children => .junction .and (toExprs children)
  | any children => .junction .or (toExprs children)
  | compare c => c.toExpr
  | unsupported source => .ident source

/-- Guards as expressions. -/
def toExprs : List Guard → List Expr
  | [] => []
  | g :: gs => g.toExpr :: toExprs gs

end

/-- Guards that can be written. -/
inductive WellFormed : Guard → Prop where
  | all {children : List Guard} (hlength : 2 ≤ children.length)
      (hchildren : ∀ g ∈ children, WellFormed g) : WellFormed (all children)
  | any {children : List Guard} (hlength : 2 ≤ children.length)
      (hchildren : ∀ g ∈ children, WellFormed g) : WellFormed (any children)
  | compare {c : Comparison} (hc : c.WellFormed) : WellFormed (compare c)

end Guard

/-! ## Formulas -/

namespace Formula

/-- A formula as an expression. -/
def toExpr : Formula → Expr
  | constant v => .number v
  | argument => .ident "x"
  | neg inner => .unary .neg inner.toExpr
  | arith lhs op rhs => .binary lhs.toExpr (.arith op) rhs.toExpr
  | unsupported source => .ident source

/-- Formulas that can be written. -/
inductive WellFormed : Formula → Prop where
  | constant {v : Float} (hfinite : v.isFinite = true) (hsign : Double.isNegative v = false) :
      WellFormed (constant v)
  | argument : WellFormed argument
  | neg {inner : Formula} (h : WellFormed inner) : WellFormed (neg inner)
  | arith {lhs : Formula} {op : Arith} {rhs : Formula} (hlhs : WellFormed lhs)
      (hrhs : WellFormed rhs) : WellFormed (arith lhs op rhs)

end Formula

end PiecewiseLinear
