import PiecewiseLinear.Formula.Basic

/-!
# The degree of a formula

A formula is admitted when it is a polynomial of degree at most one in the argument by its
form: signs only on the argument or a number, no product of two factors with the argument,
and no division by the argument or by zero.

- `FormulaError`: why a formula is refused, worded by `FormulaError.message`.
- `Formula.degreeIn`, `Formula.degree`: the degree of an admitted formula.
- `Formula.toFunctionIn`, `Formula.toFunction`: its value as a function of the argument.

Whether a denominator is zero is decided by computing it in the number system at hand.
-/

namespace PiecewiseLinear

/-- Why a formula is refused. The texts are those of the offending part. -/
inductive FormulaError where
  | negatedOperation (operand : String)
  | argumentInDenominator (quotient : String)
  | notLinear (product : String)
  | foreign (source : String)
  | divisionByZero (quotient : String)
deriving DecidableEq, Repr

/-- The refusal in words. -/
def FormulaError.message : FormulaError → String
  | negatedOperation operand =>
    s!"Unsupported return expression: `-({operand})`: negation applies only to the variable or a number"
  | argumentInDenominator quotient =>
    s!"Unsupported return expression: `{quotient}`: the variable cannot appear in a denominator"
  | notLinear product =>
    s!"Unsupported return expression: `{product}` is not a zero or first degree polynomial"
  | foreign source =>
    s!"Unsupported return expression: `{source}`: only numbers, the variable, unary minus and + - * / are supported"
  | divisionByZero quotient => s!"Division by zero in return expression: `{quotient}`"

namespace Formula

/-- The degree of a formula in the argument, or the first reason to refuse it: parts come
before the whole, the left part before the right one. -/
def degreeIn {α : Type} (system : Arithmetic α) : Formula → Except FormulaError Nat
  | constant _ => .ok 0
  | argument => .ok 1
  | neg (constant _) => .ok 0
  | neg argument => .ok 1
  | neg inner => .error (.negatedOperation inner.text)
  | arith lhs op rhs => do
    let left ← degreeIn system lhs
    let right ← degreeIn system rhs
    match op with
    | .add | .sub => return max left right
    | .mul =>
      if left + right > 1 then .error (.notLinear (arith lhs op rhs).text)
      else return left + right
    | .div =>
      if right > 0 then .error (.argumentInDenominator (arith lhs op rhs).text)
      else if system.isZero (rhs.valueIn system (system.constant Double.zero)) then
        .error (.divisionByZero (arith lhs op rhs).text)
      else return left
  | unsupported source => .error (.foreign source)

/-- The degree of a formula, with denominators computed in double precision. -/
def degree (formula : Formula) : Except FormulaError Nat := formula.degreeIn .double

/-- The value of an admitted formula as a function of the argument, over a number system. -/
def toFunctionIn {α : Type} (system : Arithmetic α) (formula : Formula) :
    Except FormulaError (α → α) := do
  let _ ← formula.degreeIn system
  return fun x => formula.valueIn system x

/-- The value of an admitted formula as a function of the argument. -/
def toFunction (formula : Formula) : Except FormulaError (Float → Float) :=
  formula.toFunctionIn .double

end Formula

end PiecewiseLinear
