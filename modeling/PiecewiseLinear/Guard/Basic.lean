import PiecewiseLinear.Number.Layout
import PiecewiseLinear.Operator

/-!
# Guards

A guard is a condition on the argument `x`: comparison chains joined by `and` and `or`.

- `Operand`: one side of a comparison, the argument or a signed number.
- `Comparison`: a first operand and the links of the chain after it.
- `Guard`: a tree of comparisons.
- `Guard.and`, `Guard.or`: joining one more condition to a guard.
- `Operand.valueAt`, `Comparison.holdsAt`, `Guard.holdsAt`: whether a condition holds at an
  argument, found by comparing numbers there. A chain holds where each of its links does.
- `Operand.text`, `Comparison.text`, `Guard.text`: a guard as a script would write it,
  with `x` for the argument. A conjunction or disjunction inside another one is always in
  parentheses.

Whatever a script may say at these places and a guard may not is kept as the text of its
source, so that a refusal can quote it. It holds nowhere, and neither does a conjunction or
disjunction of nothing.
-/

namespace PiecewiseLinear

/-- One side of a comparison. -/
inductive Operand where
  | argument
  | constant (v : Float)
  | neg (operand : Operand)
  | unsupported (source : String)
deriving Repr

/-- The operand for a number with a sign: a negative one is the negation of its magnitude,
as in a script, except that a zero keeps its sign. -/
def Operand.num (negative : Bool) (magnitude : Float) : Operand :=
  if negative && magnitude != Double.zero then .neg (.constant magnitude)
  else .constant (Numeral.signed negative magnitude)

/-- A chain of comparisons: `first`, then each comparator with the operand after it. -/
structure Comparison where
  first : Operand
  links : List (Comparator × Operand)
deriving Repr

/-- The number of terms in a chain: operands and comparators. -/
def Comparison.termCount (c : Comparison) : Nat := 1 + 2 * c.links.length

/-- A condition on the argument. -/
inductive Guard where
  | all (children : List Guard)
  | any (children : List Guard)
  | compare (comparison : Comparison)
  | unsupported (source : String)
deriving Repr

namespace Guard

/-- The single comparison `lhs op rhs`. -/
def link (lhs : Operand) (op : Comparator) (rhs : Operand) : Guard :=
  .compare ⟨lhs, [(op, rhs)]⟩

/-- The chain `lower op₀ x op₁ upper`. -/
def between (lower : Operand) (op₀ op₁ : Comparator) (upper : Operand) : Guard :=
  .compare ⟨lower, [(op₀, .argument), (op₁, upper)]⟩

/-- Both conditions: one more child of a conjunction, else a conjunction of the two. -/
def and (g h : Guard) : Guard :=
  match g with
  | all children => all (children ++ [h])
  | g => all [g, h]

/-- Either condition: one more child of a disjunction, else a disjunction of the two. -/
def or (g h : Guard) : Guard :=
  match g with
  | any children => any (children ++ [h])
  | g => any [g, h]

end Guard

/-! ## Where guards hold -/

/-- Whether two doubles compare as asked. Nothing but `!=` holds of a NaN. -/
def Comparator.compares (op : Comparator) (a b : Float) : Bool :=
  match op with
  | lt => a < b
  | le => a ≤ b
  | gt => b < a
  | ge => b ≤ a
  | eq => a == b
  | ne => a != b

/-- The number that an operand is at an argument. -/
def Operand.valueAt (x : Float) : Operand → Option Float
  | argument => some x
  | constant v => some v
  | neg operand => (operand.valueAt x).map (-·)
  | unsupported _ => none

namespace Comparison

/-- Whether each link holds, where `left` is the number in front of the first. -/
def linksHoldAt (x : Float) (left : Option Float) : List (Comparator × Operand) → Bool
  | [] => true
  | (op, operand) :: links =>
    match left, operand.valueAt x with
    | some a, some b => op.compares a b && linksHoldAt x (some b) links
    | _, _ => false

/-- Whether a chain of comparisons holds at an argument. -/
def holdsAt (x : Float) (c : Comparison) : Bool := linksHoldAt x (c.first.valueAt x) c.links

end Comparison

namespace Guard

mutual

/-- Whether a guard holds at an argument. -/
def holdsAt (x : Float) : Guard → Bool
  | all children => !children.isEmpty && allHoldAt x children
  | any children => anyHoldsAt x children
  | compare c => c.holdsAt x
  | unsupported _ => false

/-- Whether each of several guards holds at an argument. -/
def allHoldAt (x : Float) : List Guard → Bool
  | [] => true
  | g :: gs => g.holdsAt x && allHoldAt x gs

/-- Whether one of several guards holds at an argument. -/
def anyHoldsAt (x : Float) : List Guard → Bool
  | [] => false
  | g :: gs => g.holdsAt x || anyHoldsAt x gs

end

end Guard

/-! ## Guards in print -/

/-- An operand in print. -/
def Operand.text : Operand → String
  | argument => "x"
  | constant v => plain v
  | neg operand => "-" ++ operand.text
  | unsupported source => source

/-- A link of a chain in print, with the blanks around its comparator. -/
def linkText (link : Comparator × Operand) : String :=
  " " ++ link.1.symbol ++ " " ++ link.2.text

/-- A chain of comparisons in print. -/
def Comparison.text (c : Comparison) : String :=
  c.first.text ++ String.join (c.links.map linkText)

namespace Guard

/-- Whether a guard joins others. -/
def isJunction : Guard → Bool
  | all _ | any _ => true
  | _ => false

/-- Text in parentheses where they are asked for. -/
def enclosed (wanted : Bool) (s : String) : String :=
  if wanted then "(" ++ s ++ ")" else s

mutual

/-- A guard in print. -/
def text : Guard → String
  | all children => " and ".intercalate (childTexts children)
  | any children => " or ".intercalate (childTexts children)
  | compare c => c.text
  | unsupported source => source

/-- The guards under a conjunction or disjunction in print. -/
def childTexts : List Guard → List String
  | [] => []
  | g :: gs => enclosed g.isJunction g.text :: childTexts gs

end

end Guard

end PiecewiseLinear
