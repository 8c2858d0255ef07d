import PiecewiseLinear.Json.Basic
import PiecewiseLinear.Number.Decimal
import PiecewiseLinear.Piecewise.Structure
import PiecewiseLinear.Text.Basic

/-!
# Items of input

Input comes as doubles, integers, texts, JSON values, and any of these that may be missing.
An item is real when a real number, an infinity or a NaN can be read from it.

- `Item`: a value of input.
- `Item.toFloat?`: the double that an item stands for.
- `Item.shown`: how an item is shown where it is refused.
- `Readable`: all that a run needs to know of the values of its input.
-/

namespace PiecewiseLinear

/-- The double that a text stands for: a numeral between blanks. -/
def textToFloat? (s : String) : Option Float :=
  (Numeral.read? (trimBlank s.toList)).map Numeral.toFloat

/-- A value of input. -/
inductive Item where
  | real (v : Float)
  | int (n : Int)
  | text (s : String)
  | json (value : Json)
  | absent
  | present (item : Item)
deriving Repr

namespace Json

/-- The double that a JSON value stands for: numbers and texts stand for one. -/
def toFloat? : Json → Option Float
  | int n => some (Double.ofInt n)
  | real v => some v
  | str s => textToFloat? s
  | _ => none

mutual

/-- A JSON value with the name of its kind. -/
def structureText : Json → String
  | null => "Null"
  | bool b => "Bool(" ++ toString b ++ ")"
  | int n => "Number(" ++ toString n ++ ")"
  | real v => "Number(" ++ number v ++ ")"
  | str s => "String(" ++ quoted s ++ ")"
  | arr items => "Array " ++ bracketed (itemTexts items)
  | obj members =>
    "Object \x7b" ++ ", ".intercalate (memberTexts members) ++ "\x7d"

/-- The items of a list with the names of their kinds. -/
def itemTexts : List Json → List String
  | [] => []
  | item :: items => structureText item :: itemTexts items

/-- The members of an object with the names of their kinds. -/
def memberTexts : List (String × Json) → List String
  | [] => []
  | (key, value) :: members => fieldText (quoted key) (structureText value) :: memberTexts members

end

end Json

namespace Item

/-- The double that an item stands for. -/
def toFloat? : Item → Option Float
  | real v => some v
  | int n => some (Double.ofInt n)
  | text s => textToFloat? s
  | json value => value.toFloat?
  | absent => none
  | present item => item.toFloat?

/-- How an item is shown. -/
def shown : Item → String
  | real v => Layout.structural.write v
  | int n => toString n
  | text s => quoted s
  | json value => value.structureText
  | absent => "None"
  | present item => "Some(" ++ item.shown ++ ")"

/-- An item that may be missing. -/
def ofOption : Option Item → Item
  | none => absent
  | some item => present item

end Item

/-- A type of values of input: the double that a value stands for, if it is real, and how it is
shown. -/
class Readable (α : Type) where
  toFloat? : α → Option Float
  shown : α → String

instance : Readable Item := ⟨Item.toFloat?, Item.shown⟩

end PiecewiseLinear
