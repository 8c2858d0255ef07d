import PiecewiseLinear.Evaluation.Extremum
import PiecewiseLinear.Json.Basic

/-!
# Reports

A report tells the branches of a function, its values over some input, and where they are
least and greatest.

- `Report.make`: the report on values already computed.
- `Report.text`: a report in lines of text.
- `Report.json`: a report as a JSON value.
-/

namespace PiecewiseLinear

/-- A branch as reported: its region in print, and whether it is the one for the rest. -/
structure BranchLine where
  domain : String
  otherwise : Bool
deriving DecidableEq, Repr

/-- What a report tells. -/
structure Report where
  name : String
  branches : List BranchLine
  values : List (Option Float)
  argmin : Option Extremum
  argmax : Option Extremum
deriving Repr

namespace Report

/-- The report on a function and its values, with the sentinels for both extrema. -/
def make (name : String) (f : Piecewise) (values : List (Option Float))
    (minSentinel maxSentinel : Float) : Report where
  name
  branches := f.branches.zipIdx.map fun (branch, i) => ⟨branch.domain.text, f.isOtherwise i⟩
  values
  argmin := Sense.min.extremumOf values minSentinel
  argmax := Sense.max.extremumOf values maxSentinel

/-! ## As text -/

/-- A value in print. -/
def valueText : Option Float → String
  | some v => plain v
  | none => "undefined"

/-- An extremum in print. -/
def extremumText (label : String) : Option Extremum → String
  | some e => label ++ ": index " ++ toString e.index ++ ", value " ++ valueText e.value
  | none => label ++ ": no input"

/-- A branch in print. -/
def branchText (branch : BranchLine) (i : Nat) : String :=
  let mark := if branch.otherwise then " (otherwise)" else ""
  "  branch " ++ toString i ++ ": " ++ branch.domain ++ mark

/-- The lines about values; there are none without input. -/
def valueLines (r : Report) : List String :=
  if r.values.isEmpty then []
  else
    ["values: " ++ " ".intercalate (r.values.map valueText), extremumText "argmin" r.argmin,
      extremumText "argmax" r.argmax]

/-- The lines of a report. -/
def lines (r : Report) : List String :=
  r.name :: r.branches.zipIdx.map (fun (branch, i) => branchText branch i) ++ r.valueLines

/-- A report as text, each line ended. -/
def text (r : Report) : String := String.join (r.lines.map (· ++ "\n"))

/-! ## As JSON -/

/-- A value in JSON. -/
def valueJson : Option Float → Json
  | some v => .real v
  | none => .null

/-- An extremum in JSON. -/
def extremumJson : Option Extremum → Json
  | some e => .obj [("index", .int e.index), ("value", valueJson e.value)]
  | none => .null

/-- A branch in JSON. -/
def branchJson (branch : BranchLine) : Json :=
  .obj [("domain", .str branch.domain), ("otherwise", .bool branch.otherwise)]

/-- A report in JSON. -/
def json (r : Report) : Json :=
  .obj
    [("name", .str r.name), ("branches", .arr (r.branches.map branchJson)),
      ("values", .arr (r.values.map valueJson)), ("argmin", extremumJson r.argmin),
      ("argmax", extremumJson r.argmax)]

end Report

end PiecewiseLinear
