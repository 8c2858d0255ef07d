import PiecewiseLinear.Number.Rounding

/-!
# Operators

The operators that scripts, guards and formulas share, with their spelling.

- `Comparator`: the six comparisons, what they decide on doubles, and how they look from
  the other side.
- `BinaryOp`: the arithmetic operators of scripts.
- `Arith`: those that formulas admit, with their action on doubles.
- `Connective`: `and` and `or`.
-/

namespace PiecewiseLinear

/-- A comparison of two numbers. -/
inductive Comparator where
  | lt
  | le
  | gt
  | ge
  | eq
  | ne
deriving DecidableEq, Repr

namespace Comparator

/-- How a comparison is spelled. -/
def symbol : Comparator → String
  | lt => "<"
  | le => "<="
  | gt => ">"
  | ge => ">="
  | eq => "=="
  | ne => "!="

/-- The comparison seen from the other side: `b < x` says that `x > b`. -/
def flip : Comparator → Comparator
  | lt => gt
  | le => ge
  | gt => lt
  | ge => le
  | eq => eq
  | ne => ne

/-- Whether the left side is to be the smaller one. -/
def pointsUp : Comparator → Bool
  | lt | le => true
  | _ => false

/-- Whether the left side is to be the larger one. -/
def pointsDown : Comparator → Bool
  | gt | ge => true
  | _ => false

/-- Whether equal sides satisfy the comparison. -/
def admitsEqual : Comparator → Bool
  | le | ge | eq => true
  | _ => false

end Comparator

/-- An arithmetic operator of formulas. -/
inductive Arith where
  | add
  | sub
  | mul
  | div
deriving DecidableEq, Repr

namespace Arith

/-- How an operator is spelled. -/
def symbol : Arith → String
  | add => "+"
  | sub => "-"
  | mul => "*"
  | div => "/"

/-- The rounded operation on doubles. -/
def apply (op : Arith) (a b : Float) : Float :=
  match op with
  | add => a + b
  | sub => a - b
  | mul => a * b
  | div => a / b

end Arith

/-- An arithmetic operator of scripts. -/
inductive BinaryOp where
  | arith (op : Arith)
  | mod
  | pow
deriving DecidableEq, Repr

namespace BinaryOp

/-- How an operator is spelled. -/
def symbol : BinaryOp → String
  | arith op => op.symbol
  | mod => "%"
  | pow => "**"

/-- The operator as one of formulas, if it is one. -/
def toArith? : BinaryOp → Option Arith
  | arith op => some op
  | _ => none

end BinaryOp

/-- A way to join conditions. -/
inductive Connective where
  | and
  | or
deriving DecidableEq, Repr

/-- How a connective is spelled. -/
def Connective.word : Connective → String
  | .and => "and"
  | .or => "or"

end PiecewiseLinear
