import PiecewiseLinear.Evaluation.Item
import PiecewiseLinear.Piecewise.Basic

/-!
# Running a function over input

A run takes items one at a time and answers each with the value of the function there. An
item that is no real number is answered with an error and ends the run.

- `RunOver`, `Run`: a run under way, over values of any type that can be read and over items.
- `RunOver.next`: the next answer and the run after it.
- `RunOver.boundsWithin`, `RunOver.lengthBounds`: bounds on the number of answers to come.
- `RunOver.toList`: all answers to come.
- `Piecewise.evaluateAll`: the values at all items, or the error that ended the run.
- `Piecewise.evaluateItem`: the answer to a single item.
- `Call`, `RunOver.after`, `RunOver.answers`: calls in any order, the run after them, and what
  those for an answer get.
- `realCount`: how many items stand in front of the first that is not real.
- `Piecewise.dueAnswer`: what a call for an answer is to get, told from the items alone.
-/

namespace PiecewiseLinear

/-- An item that is no real number, with its position in the input. -/
structure InputError where
  index : Nat
  value : String
deriving DecidableEq, Repr

/-- The error in words. -/
def InputError.message (e : InputError) : String :=
  s!"Input at position {e.index} is not a real number: {e.value}"

/-- The error in words, with the stage that found it. -/
def InputError.report (e : InputError) : String := Stage.evaluating.report e.message

/-- The answer to an item: the value there, if there is one. -/
abbrev Answer := Except InputError (Option Float)

variable {α : Type} [Readable α]

namespace Piecewise

/-- The answer to the item at a position. -/
def answer (f : Piecewise) (index : Nat) (item : α) : Answer :=
  match Readable.toFloat? item with
  | some x => .ok (f.evaluate x)
  | none => .error ⟨index, Readable.shown item⟩

end Piecewise

/-- A run of a function over the items still to be taken. -/
structure RunOver (α : Type) where
  function : Piecewise
  pending : List α
  index : Nat
  failed : Bool

namespace RunOver

/-- A run that has taken nothing yet. -/
def start (f : Piecewise) (items : List α) : RunOver α := ⟨f, items, 0, false⟩

/-- The next answer, if there is one, and the run after it. -/
def next (run : RunOver α) : Option Answer × RunOver α :=
  if run.failed then (none, run)
  else
    match run.pending with
    | [] => (none, run)
    | item :: pending =>
      let answer := run.function.answer run.index item
      let failed := match answer with
        | .ok _ => false
        | .error _ => true
      (some answer, { run with pending, index := run.index + 1, failed })

/-- The least and the greatest number of answers to come, where the input says that no more
than `inputBound` items are to come, if it says anything. There is no other least number than
zero, since any item may end the run. -/
def boundsWithin (run : RunOver α) (inputBound : Option Nat) : Nat × Option Nat :=
  if run.failed then (0, some 0) else (0, inputBound)

/-- The bounds over an input that says how many items are to come. -/
def lengthBounds (run : RunOver α) : Nat × Nat :=
  let (low, high) := run.boundsWithin (some run.pending.length)
  (low, high.getD 0)

/-- The answers to the items from a position on, up to the first error. -/
def answersFrom (f : Piecewise) (index : Nat) : List α → List Answer
  | [] => []
  | item :: pending =>
    match f.answer index item with
    | .ok value => .ok value :: answersFrom f (index + 1) pending
    | .error e => [.error e]

/-- All answers to come. -/
def toList (run : RunOver α) : List Answer :=
  if run.failed then [] else answersFrom run.function run.index run.pending

end RunOver

/-- A run over items of input. -/
abbrev Run := RunOver Item

/-- A run over items that has taken nothing yet. -/
abbrev Run.start (f : Piecewise) (items : List Item) : Run := RunOver.start f items

namespace Piecewise

/-- The values at all items, or the error that ended the run. -/
def evaluateAll (f : Piecewise) (items : List α) : Except InputError (List (Option Float)) :=
  (RunOver.start f items).toList.mapM id

/-- The answer to a single item: the first one of the run over it alone. -/
def evaluateItem (f : Piecewise) (item : α) : Answer :=
  (RunOver.start f [item]).next.1.getD (.ok none)

end Piecewise

/-! ## Calls in any order -/

/-- A call on a run. -/
inductive Call where
  | next
  | bounds
deriving DecidableEq, Repr

namespace RunOver

/-- The run after calls. -/
def after (run : RunOver α) : List Call → RunOver α
  | [] => run
  | .next :: calls => run.next.2.after calls
  | .bounds :: calls => run.after calls

/-- What the calls for an answer get, in order. -/
def answers (run : RunOver α) : List Call → List (Option Answer)
  | [] => []
  | .next :: calls => run.next.1 :: run.next.2.answers calls
  | .bounds :: calls => run.answers calls

end RunOver

/-- How many items stand in front of the first that is not real; all, if there is none. -/
def realCount (items : List α) : Nat :=
  items.findIdx fun item => (Readable.toFloat? item).isNone

/-- What the call for an answer with a given number is to get from a run over items: the answer
to its item, up to the first that is not real, and nothing from then on. -/
def Piecewise.dueAnswer (f : Piecewise) (items : List α) (n : Nat) : Option Answer :=
  if n ≤ realCount items then items[n]?.map (f.answer n) else none

end PiecewiseLinear
