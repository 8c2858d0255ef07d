import PiecewiseLinear.Number.Layout
import PiecewiseLinear.Operator

/-!
# Formulas

A formula is the value of a branch as an expression in the argument `x`.

- `Formula`: the expression trees.
- `Arithmetic`: the operations that give a tree a value, over any number system.
- `Arithmetic.double`: the operations of double precision.
- `Formula.valueIn`, `Formula.value`: the value of a formula at an argument.
- `Formula.parts`, `Formula.tracedIn`: all formulas in a formula, and its value together with
  what computing it met, in order.
- `Formula.text`: a formula as a script would write it, with `x` for the argument and
  parentheses only where the operators need them.

What a script may return and a formula may not is kept as the text of its source. Such a
formula has the value `undefined` of its number system; no admitted formula contains one.
-/

namespace PiecewiseLinear

/-- An expression in the argument. -/
inductive Formula where
  | constant (v : Float)
  | argument
  | neg (inner : Formula)
  | arith (lhs : Formula) (op : Arith) (rhs : Formula)
  | unsupported (source : String)
deriving Repr

/-- A number system in which formulas have values. -/
structure Arithmetic (α : Type) where
  /-- The number that a constant of a formula stands for. -/
  constant : Float → α
  /-- The negative of a number. -/
  neg : α → α
  /-- The four operations. -/
  apply : Arith → α → α → α
  /-- Whether a number is zero as a divisor. -/
  isZero : α → Bool
  /-- The value of what is no formula. -/
  undefined : α

/-- Double precision, where both zeros are zero. -/
def Arithmetic.double : Arithmetic Float where
  constant v := v
  neg v := -v
  apply := Arith.apply
  isZero v := v == Double.zero
  undefined := Double.nan

namespace Formula

/-- The value of a formula at an argument: one operation for each operator, in the order
of the tree. -/
def valueIn {α : Type} (system : Arithmetic α) (x : α) : Formula → α
  | constant v => system.constant v
  | argument => x
  | neg inner => system.neg (valueIn system x inner)
  | arith lhs op rhs => system.apply op (valueIn system x lhs) (valueIn system x rhs)
  | unsupported _ => system.undefined

/-- The value of a formula in double precision. -/
def value (formula : Formula) (x : Float) : Float := formula.valueIn .double x

end Formula

/-! ## What computing a formula meets -/

namespace Formula

/-- A formula and all formulas in it, the whole before its parts. -/
def parts : Formula → List Formula
  | constant v => [constant v]
  | argument => [argument]
  | neg inner => neg inner :: inner.parts
  | arith lhs op rhs => arith lhs op rhs :: (lhs.parts ++ rhs.parts)
  | unsupported source => [unsupported source]

/-- What a computation can meet that may go wrong. -/
inductive Event (α : Type) where
  /-- A number was divided by. -/
  | division (divisor : α)
  /-- Something that is no formula was asked for its value. -/
  | foreign (source : String)
deriving DecidableEq, Repr

/-- A value, and what computing it met. -/
structure Traced (α : Type) where
  value : α
  events : List (Event α)
deriving DecidableEq, Repr

/-- The divisions that an operator makes. -/
def divisions {α : Type} (op : Arith) (rhs : α) : List (Event α) :=
  match op with
  | .div => [.division rhs]
  | _ => []

/-- The value of a formula at an argument, with what computing it meets: the left part before
the right one, and both before the operation. -/
def tracedIn {α : Type} (system : Arithmetic α) (x : α) : Formula → Traced α
  | constant v => ⟨system.constant v, []⟩
  | argument => ⟨x, []⟩
  | neg inner =>
    let traced := tracedIn system x inner
    ⟨system.neg traced.value, traced.events⟩
  | arith lhs op rhs =>
    let left := tracedIn system x lhs
    let right := tracedIn system x rhs
    ⟨system.apply op left.value right.value,
      left.events ++ right.events ++ divisions op right.value⟩
  | unsupported source => ⟨system.undefined, [.foreign source]⟩

end Formula

/-! ## Formulas in print -/

/-- How tightly operators bind, from the loosest on. An expression goes into parentheses
where a tighter one is wanted. -/
structure Binding where
  tightness : Nat
deriving DecidableEq, Repr

namespace Binding

/-- Binds no operand at all: always in parentheses. -/
def foreign : Binding := ⟨0⟩

/-- The disjunction of conditions. -/
def disjunction : Binding := ⟨1⟩

/-- The conjunction of conditions. -/
def conjunction : Binding := ⟨2⟩

/-- The negation of a condition. -/
def negation : Binding := ⟨3⟩

/-- A chain of comparisons. -/
def comparison : Binding := ⟨4⟩

/-- Sums and differences. -/
def sum : Binding := ⟨5⟩

/-- Products, quotients and remainders. -/
def product : Binding := ⟨6⟩

/-- Signs. -/
def sign : Binding := ⟨7⟩

/-- Powers. -/
def power : Binding := ⟨8⟩

/-- Names, numbers and calls. -/
def atom : Binding := ⟨9⟩

/-- The binding that is one step tighter. -/
def tighter (b : Binding) : Binding := ⟨b.tightness + 1⟩

/-- The text of an expression that binds like `actual` where `wanted` is asked for. -/
def enclose (wanted actual : Binding) (s : String) : String :=
  if actual.tightness < wanted.tightness then "(" ++ s ++ ")" else s

end Binding

/-- The binding of an operator, which its left operand needs at least. -/
def Arith.binding : Arith → Binding
  | add | sub => .sum
  | mul | div => .product

namespace Formula

/-- How tightly the outermost operator of a formula binds. -/
def binding : Formula → Binding
  | arith _ op _ => op.binding
  | neg _ => .sign
  | constant _ | argument => .atom
  | unsupported _ => .foreign

/-- A formula in print. -/
def text : Formula → String
  | constant v => plain v
  | argument => "x"
  | neg inner => "-" ++ Binding.sign.enclose inner.binding inner.text
  | arith lhs op rhs =>
    op.binding.enclose lhs.binding lhs.text ++ " " ++ op.symbol ++ " " ++
      op.binding.tighter.enclose rhs.binding rhs.text
  | unsupported source => source

end Formula

end PiecewiseLinear
