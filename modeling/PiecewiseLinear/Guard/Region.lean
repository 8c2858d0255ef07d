import PiecewiseLinear.Guard.Basic
import PiecewiseLinear.Region.Basic

/-!
# The region of a guard

A guard is admitted when each of its comparisons has one of the forms `x op c`, `c op x`
and `c op x op c`, where a chain points one way and a number `c` may be negated any number
of times. An admitted guard denotes the region of the arguments that satisfy it.

- `GuardError`: why a guard is refused, worded by `GuardError.message`.
- `Comparison.region`, `Guard.region`: the region of an admitted guard.

A conjunction or disjunction of nothing denotes the empty region.
-/

namespace PiecewiseLinear

/-- What is wrong with the form of a comparison. -/
inductive ComparisonFault where
  | negatedArgument
  | foreignOperand (source : String)
  | notOneArgument
  | middleNotArgument
  | outerNotNumber
  | mixedDirections
  | termCount (count : Nat)
deriving DecidableEq, Repr

/-- Why a guard is refused. -/
inductive GuardError where
  | notComparison (source : String)
  | malformed (comparison : String) (fault : ComparisonFault)
deriving DecidableEq, Repr

/-- What is wrong, in words. -/
def ComparisonFault.reason : ComparisonFault → String
  | negatedArgument => "the variable cannot be negated"
  | foreignOperand source => s!"`{source}` is neither the variable nor a number"
  | notOneArgument => "exactly one side must be the variable"
  | middleNotArgument => "the middle term must be the variable"
  | outerNotNumber => "the outer terms must be numbers"
  | mixedDirections => "both operators of a chained comparison must point the same direction"
  | termCount count => s!"found {count} terms"

/-- The refusal in words. -/
def GuardError.message : GuardError → String
  | notComparison source =>
    s!"Malformed guard: `{source}` is not a comparison or a boolean combination of comparisons"
  | malformed comparison fault =>
    s!"Malformed guard: `{comparison}`: {fault.reason}; expected `x op c`, `c op x` or `c op x op c`"

/-- What an operand stands for. -/
inductive Side where
  | argument
  | number (v : Float)

/-- What an operand stands for, if it has an admitted form. -/
def Operand.side : Operand → Except ComparisonFault Side
  | argument => .ok .argument
  | constant v => .ok (.number v)
  | neg operand => do
    match ← operand.side with
    | .number v => .ok (.number (-v))
    | .argument => .error .negatedArgument
  | unsupported source => .error (.foreignOperand source)

/-- The arguments `x` with `x op bound`. -/
def Comparator.solutions (op : Comparator) (bound : Float) : Region :=
  match op with
  | lt => .Iio bound
  | le => .Iic bound
  | gt => .Ioi bound
  | ge => .Ici bound
  | eq => .point bound
  | ne => (Region.point bound).compl

/-- The edge at a bound that is compared by `op`. -/
def Comparator.edge (op : Comparator) : Edge :=
  if op.admitsEqual then .included else .excluded

/-- The arguments of a single comparison. -/
def simpleRegion (lhs : Side) (op : Comparator) (rhs : Side) : Except ComparisonFault Region :=
  match lhs, rhs with
  | .argument, .number bound => .ok (op.solutions bound)
  | .number bound, .argument => .ok (op.flip.solutions bound)
  | _, _ => .error .notOneArgument

/-- The arguments between the two ends of a chain that points one way. -/
def chainRegion (first : Float) (op₀ op₁ : Comparator) (last : Float) :
    Except ComparisonFault Region :=
  if op₀.pointsUp && op₁.pointsUp then .ok (.ofBounds op₀.edge first last op₁.edge)
  else if op₀.pointsDown && op₁.pointsDown then .ok (.ofBounds op₁.edge last first op₀.edge)
  else .error .mixedDirections

/-- The region of a comparison, or what is wrong with its form. The operands of a chain are
looked at from the middle outwards. -/
def Comparison.region? (c : Comparison) : Except ComparisonFault Region :=
  match c.links with
  | [(op, rhs)] => do
    let lhs ← c.first.side
    let rhs ← rhs.side
    simpleRegion lhs op rhs
  | [(op₀, middle), (op₁, outer)] => do
    match ← middle.side with
    | .number _ => .error .middleNotArgument
    | .argument =>
      let first ← c.first.side
      let last ← outer.side
      match first, last with
      | .number first, .number last => chainRegion first op₀ op₁ last
      | _, _ => .error .outerNotNumber
  | _ => .error (.termCount c.termCount)

/-- The region of a comparison. -/
def Comparison.region (c : Comparison) : Except GuardError Region :=
  c.region?.mapError fun fault => .malformed c.text fault

/-- Combines regions two at a time from the left. -/
def Region.combine (op : Region → Region → Region) : List Region → Region
  | [] => .empty
  | a :: rest => rest.foldl op a

namespace Guard

mutual

/-- The region of a guard, or the first reason to refuse it. -/
def region : Guard → Except GuardError Region
  | all children => do return .combine .inter (← regions children)
  | any children => do return .combine .union (← regions children)
  | compare c => c.region
  | unsupported source => .error (.notComparison source)

/-- The regions of several guards, or the first reason to refuse one of them. -/
def regions : List Guard → Except GuardError (List Region)
  | [] => .ok []
  | g :: gs => do return (← g.region) :: (← regions gs)

end

end Guard

end PiecewiseLinear
