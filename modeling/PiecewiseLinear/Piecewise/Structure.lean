import PiecewiseLinear.Number.Layout
import PiecewiseLinear.Piecewise.Basic

/-!
# Piecewise functions in print

- `Piecewise.text`: the branches, one a line.
- `Layout.structural`: how numbers are written in a structure.
- `Piecewise.structureText`: a piecewise function written out with the names of its fields, on
  one line. Functions have no text and are left out.
-/

namespace PiecewiseLinear

/-! ## Branch by branch -/

namespace Piecewise

/-- A branch in print. -/
def branchText (f : Piecewise) (branch : Branch) (i : Nat) : String :=
  let mark := if f.isOtherwise i then " (otherwise)" else ""
  branch.domain.text ++ " -> branch " ++ toString i ++ mark

/-- The branches in print, one a line. -/
def text (f : Piecewise) : String :=
  "\n".intercalate (f.branches.zipIdx.map fun (branch, i) => f.branchText branch i)

end Piecewise

/-! ## Field by field -/

/-- Positional from `10 ^ -4` up to `10 ^ 16` and with a point there, else with a bare
exponent: `1.0`, `0.0001`, `1e16`. -/
def Layout.structural : Layout := ⟨some (-4, 16), true, false, .away⟩

/-- A list in brackets. -/
def bracketed (items : List String) : String := "[" ++ ", ".intercalate items ++ "]"

/-- A field with its name. -/
def fieldText (name value : String) : String := name ++ ": " ++ value

/-- A record with its name, as a list of fields in braces. -/
def recordText (name : String) (fields : List String) : String :=
  name ++ " \x7b " ++ ", ".intercalate fields ++ " \x7d"

/-- The name of an edge. -/
def Edge.structureText : Edge → String
  | excluded => "Open"
  | included => "Closed"

/-- A segment field by field. -/
def Segment.structureText (s : Segment) : String :=
  recordText "Atomic"
    [fieldText "left" s.left.structureText, fieldText "lower" (Layout.structural.write s.lower),
      fieldText "upper" (Layout.structural.write s.upper),
      fieldText "right" s.right.structureText]

/-- A region field by field. -/
def Region.structureText (a : Region) : String :=
  recordText "Interval" [fieldText "atoms" (bracketed (a.segments.map Segment.structureText))]

/-- A branch field by field, with dots for its function. -/
def Branch.structureText (b : Branch) : String :=
  recordText "Branch" [fieldText "domain" b.domain.structureText, ".."]

/-- A piecewise function field by field. -/
def Piecewise.structureText (f : Piecewise) : String :=
  recordText "PiecewiseFunction"
    [fieldText "branches" (bracketed (f.branches.map Branch.structureText)),
      fieldText "has_otherwise" (toString f.hasOtherwise)]

end PiecewiseLinear
