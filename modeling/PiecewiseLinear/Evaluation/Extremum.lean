import PiecewiseLinear.Evaluation.Run

/-!
# Extrema

The position and value of the least or the greatest among values some of which are
undefined. An undefined value is compared as a sentinel.

- `Sense`: which end is looked for, with its default sentinel.
- `Sense.extremumOf`: the extremum of values already computed.
- `Piecewise.extremum`: the extremum over items of input.

Of equal values the first one counts, except that a defined one counts before an undefined
one. A NaN is selected only where there is nothing else.
-/

namespace PiecewiseLinear

/-- Which extremum is looked for. -/
inductive Sense where
  | min
  | max
deriving DecidableEq, Repr

/-- The position of an extremum and the value there. -/
structure Extremum where
  index : Nat
  value : Option Float
deriving DecidableEq, Repr

namespace Sense

/-- What undefined values are compared as by default: the infinity that everything else is
better than. -/
def sentinel : Sense → Float
  | min => Double.infinity
  | max => -Double.infinity

/-- Whether one number is strictly better than another. -/
def beats (sense : Sense) (candidate best : Float) : Bool :=
  match sense with
  | min => candidate < best
  | max => best < candidate

/-- What a value is compared as. -/
def key (sentinel : Float) (value : Option Float) : Float := value.getD sentinel

/-- Whether a later value takes the place of the best one so far. -/
def replaces (sense : Sense) (sentinel : Float) (candidate best : Option Float) : Bool :=
  let candidateKey := key sentinel candidate
  let bestKey := key sentinel best
  (bestKey.isNaN && !candidateKey.isNaN) || sense.beats candidateKey bestKey ||
    (candidateKey == bestKey && best.isNone && candidate.isSome)

/-- The better of an extremum and a later value. -/
def better (sense : Sense) (sentinel : Float) (best : Extremum) (later : Option Float × Nat) :
    Extremum :=
  if sense.replaces sentinel later.1 best.value then ⟨later.2, later.1⟩ else best

/-- The extremum of values, if there are any. -/
def extremumOf (sense : Sense) (values : List (Option Float)) (sentinel : Float) :
    Option Extremum :=
  match values.zipIdx with
  | [] => none
  | (value, index) :: rest => some (rest.foldl (sense.better sentinel) ⟨index, value⟩)

end Sense

namespace Piecewise

/-- The extremum of a function over items, with undefined values compared as `sentinel`. -/
def extremum {α : Type} [Readable α] (f : Piecewise) (items : List α) (sense : Sense)
    (sentinel : Float) : Except InputError (Option Extremum) := do
  return sense.extremumOf (← f.evaluateAll items) sentinel

end Piecewise

end PiecewiseLinear
