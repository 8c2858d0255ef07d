import PiecewiseLinear.Guard.Basic
import PiecewiseLinear.Script.Basic

/-!
# Executing scripts

The value of a script at an argument, found by executing its statements from the top, and all
that a script may come to on the way.

- `Expr.valueAt`, `Expr.holdsAt`: an expression as a number and as a condition.
- `Stmt.outcomeAt`: whether a statement ends the function, and with which value.
- `Function.valueAt`: the value of a function, if it has one.
- `Step`, `Stmt.steps`, `Function.steps`: a script from the top to the bottom, as if no value
  ended it: conditions with their values, values without a condition, and assignments.
- `reached`: steps up to the first that closes the script.
- `Function.tests`, `Function.values`: the conditions and the values that are reached.

A conditional whose test fails passes on to its alternative or, without one, to the
statement after it. An assignment ends a function without a value, and so does the end of
its body.
-/

namespace PiecewiseLinear.Script

namespace Expr

/-- The number that an expression is where the parameter is `x`. Remainders, powers, calls
and conditions are none, and neither is any other name. -/
def valueAt (param : String) (x : Float) : Expr → Option Float
  | ident name => if name = param then some x else none
  | number v => some v
  | unary .neg operand => (operand.valueAt param x).map (-·)
  | unary .pos operand => operand.valueAt param x
  | binary lhs (.arith op) rhs => do
    return op.apply (← lhs.valueAt param x) (← rhs.valueAt param x)
  | _ => none

/-- Whether each link of a chain holds, where `left` is the number in front of the first. -/
def linksHoldAt (param : String) (x : Float) (left : Option Float) :
    List (Comparator × Expr) → Bool
  | [] => true
  | (op, operand) :: links =>
    match left, operand.valueAt param x with
    | some a, some b => op.compares a b && linksHoldAt param x (some b) links
    | _, _ => false

mutual

/-- Whether an expression holds as a condition where the parameter is `x`. -/
def holdsAt (param : String) (x : Float) : Expr → Bool
  | compare first links => linksHoldAt param x (first.valueAt param x) links
  | junction .and operands => !operands.isEmpty && allHoldAt param x operands
  | junction .or operands => anyHoldsAt param x operands
  | _ => false

/-- Whether each of several conditions holds. -/
def allHoldAt (param : String) (x : Float) : List Expr → Bool
  | [] => true
  | e :: es => e.holdsAt param x && allHoldAt param x es

/-- Whether one of several conditions holds. -/
def anyHoldsAt (param : String) (x : Float) : List Expr → Bool
  | [] => false
  | e :: es => e.holdsAt param x || anyHoldsAt param x es

end

end Expr

/-- What a statement comes to: it passes on to the next one, or it ends the function with a
value or without. -/
inductive Outcome where
  | passes
  | ends (value : Option Float)
deriving DecidableEq, Repr

namespace Stmt

mutual

/-- What a statement comes to where the parameter is `x`. -/
def outcomeAt (param : String) (x : Float) : Stmt → Outcome
  | cond test value alternative =>
    if test.holdsAt param x then .ends (value.valueAt param x)
    else alternativeAt param x alternative
  | ret value => .ends (value.valueAt param x)
  | assign _ _ => .ends none

/-- What the alternative of a conditional comes to. -/
def alternativeAt (param : String) (x : Float) : Option Stmt → Outcome
  | none => .passes
  | some stmt => outcomeAt param x stmt

end

/-- The value with which a body ends. -/
def bodyValueAt (param : String) (x : Float) : List Stmt → Option Float
  | [] => none
  | stmt :: rest =>
    match stmt.outcomeAt param x with
    | .passes => bodyValueAt param x rest
    | .ends value => value

end Stmt

/-- The value of a function at an argument. -/
def Function.valueAt (f : Function) (x : Float) : Option Float :=
  Stmt.bodyValueAt f.param x f.body

/-! ## Steps

A value without a condition or an assignment closes the script, and what comes behind it is not
reached. -/

/-- What a script may come to next. -/
inductive Step where
  | branch (test value : Expr)
  | final (value : Expr)
  | assignment
deriving Repr

namespace Step

/-- Whether nothing behind a step is reached. -/
def closes : Step → Bool
  | branch _ _ => false
  | final _ | assignment => true

/-- The condition of a step. -/
def test? : Step → Option Expr
  | branch test _ => some test
  | final _ | assignment => none

/-- The value that a step returns. -/
def value? : Step → Option Expr
  | branch _ value | final value => some value
  | assignment => none

end Step

mutual

/-- The steps of a statement: a condition and those of its alternative, or a single one. -/
def Stmt.steps : Stmt → List Step
  | .cond test value alternative => .branch test value :: alternativeSteps alternative
  | .ret value => [.final value]
  | .assign _ _ => [.assignment]

/-- The steps of what follows a condition in its chain. -/
def Stmt.alternativeSteps : Option Stmt → List Step
  | none => []
  | some stmt => stmt.steps

end

/-- Steps up to the first that closes the script, which is reached itself. -/
def reached (steps : List Step) : List Step := steps.take (steps.findIdx Step.closes + 1)

namespace Function

/-- The steps of a function. -/
def steps (f : Function) : List Step := f.body.flatMap Stmt.steps

/-- The conditions that are reached. -/
def tests (f : Function) : List Expr := (reached f.steps).filterMap Step.test?

/-- The values that are reached. -/
def values (f : Function) : List Expr := (reached f.steps).filterMap Step.value?

end Function

end PiecewiseLinear.Script
