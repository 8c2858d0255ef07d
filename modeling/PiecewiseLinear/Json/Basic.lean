import PiecewiseLinear.Number.Layout

/-!
# JSON values

- `Json`: the values. Integers are kept apart from numbers with a fraction or an exponent.
- `Json.number`: how a double is written as a JSON number.
- `Json.escaped`, `Json.string`: how a text is written as a JSON string.
- `Json.pretty`: a value over several lines, indented by two blanks a level.
-/

namespace PiecewiseLinear

/-- A JSON value. The members of an object are in the order in which they are written. -/
inductive Json where
  | null
  | bool (b : Bool)
  | int (n : Int)
  | real (v : Float)
  | str (s : String)
  | arr (items : List Json)
  | obj (members : List (String × Json))
deriving Repr

/-- Positional from `10 ^ -5` up to `10 ^ 16` and with a point there, else with a signed
exponent: `1.0`, `0.00001`, `1e+16`. -/
def Layout.json : Layout := ⟨some (-5, 16), true, true, .toEven⟩

namespace Json

/-- A double as a JSON number. JSON has none for infinities and for what is no number. -/
def number (v : Float) : String := if v.isFinite then Layout.json.write v else "null"

/-- A hexadecimal number of four digits. -/
def fourDigits (n : Nat) : List Char :=
  let digits := Nat.toDigits 16 n
  List.replicate (4 - digits.length) '0' ++ digits

/-- How a character is written in a JSON string: quotes, backslashes and control characters
are escaped. -/
def escaped (c : Char) : List Char :=
  match c with
  | '"' => ['\\', '"']
  | '\\' => ['\\', '\\']
  | '\x08' => ['\\', 'b']
  | '\x0c' => ['\\', 'f']
  | '\n' => ['\\', 'n']
  | '\r' => ['\\', 'r']
  | '\t' => ['\\', 't']
  | c => if c.toNat < 32 then ['\\', 'u'] ++ fourDigits c.toNat else [c]

/-- A text as a JSON string. -/
def string (s : String) : String := String.ofList ('"' :: s.toList.flatMap escaped ++ ['"'])

/-- The blanks in front of a line at a depth. -/
def indentation (depth : Nat) : String := String.ofList (List.replicate (2 * depth) ' ')

/-- Items between two brackets, each on a line of its own, or the bare brackets. -/
def block (depth : Nat) (opening closing : String) (items : List String) : String :=
  if items.isEmpty then opening ++ closing
  else
    let line := "\n" ++ indentation (depth + 1)
    opening ++ line ++ ("," ++ line).intercalate items ++ "\n" ++ indentation depth ++ closing

mutual

/-- A value over several lines, of which the first is at the given depth. -/
def prettyAt (depth : Nat) : Json → String
  | null => "null"
  | bool b => toString b
  | int n => toString n
  | real v => number v
  | str s => string s
  | arr items => block depth "[" "]" (prettyItems (depth + 1) items)
  | obj members => block depth "\x7b" "\x7d" (prettyMembers (depth + 1) members)

/-- The items of a list. -/
def prettyItems (depth : Nat) : List Json → List String
  | [] => []
  | item :: items => prettyAt depth item :: prettyItems depth items

/-- The members of an object. -/
def prettyMembers (depth : Nat) : List (String × Json) → List String
  | [] => []
  | (key, value) :: members =>
    (string key ++ ": " ++ prettyAt depth value) :: prettyMembers depth members

end

/-- A value over several lines. -/
def pretty (value : Json) : String := prettyAt 0 value

end Json

end PiecewiseLinear
