import PiecewiseLinear.Script.Basic

/-!
# Scripts read again

What a script becomes that is printed and read again. All that can change is a number beyond the
range of doubles: it is printed as `inf`, and what reads `inf` takes it for a name.

- `Expr.numbers`, `Stmt.numbers`, `Function.numbers`: the numbers in a script.
- `Expr.reread`, `Stmt.reread`, `Function.reread`: the script with a name for each number that is
  not finite.
-/

namespace PiecewiseLinear.Script

namespace Expr

mutual

/-- The numbers in an expression. -/
def numbers : Expr → List Float
  | ident _ => []
  | number v => [v]
  | unary _ operand => operand.numbers
  | binary lhs _ rhs => lhs.numbers ++ rhs.numbers
  | compare first links => first.numbers ++ linkNumbers links
  | junction _ operands => operandNumbers operands
  | call callee arguments => callee.numbers ++ operandNumbers arguments

/-- The numbers in the links of a comparison chain. -/
def linkNumbers : List (Comparator × Expr) → List Float
  | [] => []
  | (_, operand) :: links => operand.numbers ++ linkNumbers links

/-- The numbers in operands or arguments. -/
def operandNumbers : List Expr → List Float
  | [] => []
  | operand :: operands => operand.numbers ++ operandNumbers operands

end

/-- A number, or the name that is its text where it is not finite. -/
def rereadNumber (v : Float) : Expr := if v.isFinite then number v else ident (plain v)

mutual

/-- An expression that has been printed and read again. -/
def reread : Expr → Expr
  | ident name => ident name
  | number v => rereadNumber v
  | unary op operand => unary op operand.reread
  | binary lhs op rhs => binary lhs.reread op rhs.reread
  | compare first links => compare first.reread (rereadLinks links)
  | junction connective operands => junction connective (rereadOperands operands)
  | call callee arguments => call callee.reread (rereadOperands arguments)

/-- The links of a comparison chain that has been printed and read again. -/
def rereadLinks : List (Comparator × Expr) → List (Comparator × Expr)
  | [] => []
  | (op, operand) :: links => (op, operand.reread) :: rereadLinks links

/-- Operands or arguments that have been printed and read again. -/
def rereadOperands : List Expr → List Expr
  | [] => []
  | operand :: operands => operand.reread :: rereadOperands operands

end

end Expr

namespace Stmt

/-- The numbers in a statement. -/
def numbers : Stmt → List Float
  | cond test value none => test.numbers ++ value.numbers
  | cond test value (some alternative) => test.numbers ++ value.numbers ++ alternative.numbers
  | ret value | assign _ value => value.numbers

/-- A statement that has been printed and read again. -/
def reread : Stmt → Stmt
  | cond test value none => cond test.reread value.reread none
  | cond test value (some alternative) => cond test.reread value.reread (some alternative.reread)
  | ret value => ret value.reread
  | assign name value => assign name value.reread

end Stmt

/-- The numbers in a function. -/
def Function.numbers (f : Function) : List Float := f.body.flatMap Stmt.numbers

/-- A function that has been printed and read again. -/
def Function.reread (f : Function) : Function := { f with body := f.body.map Stmt.reread }

end PiecewiseLinear.Script
