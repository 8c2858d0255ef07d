import PiecewiseLinear.Region.Basic

/-!
# Piecewise functions

A piecewise function has branches, each a region and a function to apply there, and the
regions share no real. What lies in none of them has no value.

- `Piecewise.assemble`: a piecewise function from regions and functions. One function more
  than there are regions gets all that the regions leave.
- `AssemblyError`: why regions and functions do not fit together.
- `Piecewise.branchAt`, `Piecewise.positionAt`, `Piecewise.evaluate`: the branch at an
  argument, its position, and its value there.
- `Stage`: the stages from a script to the values of its function, as messages name them.
-/

namespace PiecewiseLinear

/-- A function on a region. -/
structure Branch where
  domain : Region
  value : Float → Float

/-- Branches in order, and whether the last one covers all that the others leave. -/
structure Piecewise where
  branches : List Branch
  hasOtherwise : Bool

/-- Why regions and functions do not fit together. -/
inductive AssemblyError where
  | noValues
  | countMismatch (domains values : Nat)
  | overlapping (pairs : List (Nat × Nat))
deriving DecidableEq, Repr

/-- A pair of overlapping branches in words. -/
def pairText (pair : Nat × Nat) : String := s!"branches {pair.1} and {pair.2}"

/-- The error in words. -/
def AssemblyError.message : AssemblyError → String
  | noValues => "At least one branch evaluator is required"
  | countMismatch domains values =>
    s!"Expected {domains} or {domains + 1} evaluators for {domains} domains, got {values}"
  | overlapping pairs =>
    "Branch domains intersect: " ++ ", ".intercalate (pairs.map pairText)

/-- The positions of the regions after position `i` that overlap a region. -/
def overlapsAfter (a : Region) (i : Nat) (rest : List (Region × Nat)) : List (Nat × Nat) :=
  (rest.filter fun (b, _) => a.overlaps b).map fun (_, j) => (i, j)

/-- The positions of any two of the numbered regions that overlap, in order. -/
def overlappingPairs : List (Region × Nat) → List (Nat × Nat)
  | [] => []
  | (a, i) :: rest => overlapsAfter a i rest ++ overlappingPairs rest

namespace Piecewise

/-- Branches from regions and functions in order, provided that no two regions overlap. -/
def ofDisjoint (domains : List Region) (values : List (Float → Float)) (hasOtherwise : Bool) :
    Except AssemblyError Piecewise :=
  match overlappingPairs domains.zipIdx with
  | [] => .ok ⟨List.zipWith Branch.mk domains values, hasOtherwise⟩
  | pairs => .error (.overlapping pairs)

/-- A piecewise function from regions and functions. -/
def assemble (domains : List Region) (values : List (Float → Float)) :
    Except AssemblyError Piecewise :=
  if values.isEmpty then .error .noValues
  else if values.length = domains.length then ofDisjoint domains values false
  else if values.length = domains.length + 1 then
    ofDisjoint (domains ++ [(Region.unions domains).compl]) values true
  else .error (.countMismatch domains.length values.length)

/-- The number of branches. -/
def size (f : Piecewise) : Nat := f.branches.length

/-- The regions of the branches. -/
def domains (f : Piecewise) : List Region := f.branches.map (·.domain)

/-- The first branch whose region holds an argument. -/
def branchAt (f : Piecewise) (x : Float) : Option Branch :=
  f.branches.find? fun branch => branch.domain.contains x

/-- The position of that branch. -/
def positionAt (f : Piecewise) (x : Float) : Option Nat :=
  f.branches.findIdx? fun branch => branch.domain.contains x

/-- The value at an argument, if it lies in a region. -/
def evaluate (f : Piecewise) (x : Float) : Option Float :=
  (f.branchAt x).map fun branch => branch.value x

/-- Whether the branch at a position is the one for all that the others leave. -/
def isOtherwise (f : Piecewise) (i : Nat) : Bool := f.hasOtherwise && i + 1 == f.size

end Piecewise

/-! ## Stages -/

/-- A stage from a script to the values of its function. -/
inductive Stage where
  | reading
  | walking
  | compiling
  | assembling
  | evaluating
deriving DecidableEq, Repr

namespace Stage

/-- How a stage is named in messages. -/
def label : Stage → String
  | reading => "Parse"
  | walking => "Transform"
  | compiling => "Compile"
  | assembling => "Assemble"
  | evaluating => "Eval"

/-- An error in words, with the stage that found it. -/
def report (stage : Stage) (cause : String) : String := stage.label ++ " error: " ++ cause

end Stage

end PiecewiseLinear
