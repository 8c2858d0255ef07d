import PiecewiseLinear.Json.Basic
import PiecewiseLinear.Number.Decimal

/-!
# Reading JSON

- `Json.readNumber`, `Json.readChars`: the number, and the characters of the string, at the head
  of a text, with what follows them.
- `Json.readValue`: the value at the head of a text, with what follows it.
- `Json.read?`: the value that a whole text is.
- `Json.inPrint`: what is left of a value when it is written and read again.
- `Json.member?`: a member of an object.

A number with neither a fraction nor an exponent is an integer. The reader takes a little more
than JSON: its numbers are those of scripts, and control characters may stand in strings. Escaped
code points stand for characters one by one, so halves of characters are refused.
-/

namespace PiecewiseLinear.Json

/-- The blanks and line ends between the parts of a text. -/
def isBlank (c : Char) : Bool := c = ' ' || c = '\n' || c = '\r' || c = '\t'

/-- A text without the blanks at its head. -/
def skip (s : List Char) : List Char := s.dropWhile isBlank

/-! ## Numbers -/

/-- The number that a sign and the literal at the head of a text denote. -/
def readMagnitude (negative : Bool) (s : List Char) : Option (Json × List Char) :=
  (Decimal.scan s).map fun (d, rest) =>
    let (digits, afterDigits) := Decimal.scanDigits s
    if afterDigits = rest then
      (.int (if negative then -(Decimal.value digits : Int) else Decimal.value digits), rest)
    else (.real (Numeral.signed negative d.toFloat), rest)

/-- The number at the head of a text. -/
def readNumber : List Char → Option (Json × List Char)
  | '-' :: s => readMagnitude true s
  | s => readMagnitude false s

/-! ## Strings -/

/-- The value of a hexadecimal digit. -/
def hexValue? (c : Char) : Option Nat :=
  if c.isDigit then some (c.toNat - '0'.toNat)
  else if 'a' ≤ c ∧ c ≤ 'f' then some (c.toNat - 'a'.toNat + 10)
  else if 'A' ≤ c ∧ c ≤ 'F' then some (c.toNat - 'A'.toNat + 10)
  else none

/-- The character with a code point of four hexadecimal digits. -/
def codePoint? (a b c d : Char) : Option Char := do
  let n := (((← hexValue? a) * 16 + (← hexValue? b)) * 16 + (← hexValue? c)) * 16 + (← hexValue? d)
  if n.isValidChar then some (Char.ofNat n) else none

/-- The character that stands behind a backslash for another one. -/
def unescaped? : Char → Option Char
  | '"' => some '"'
  | '\\' => some '\\'
  | '/' => some '/'
  | 'b' => some '\x08'
  | 'f' => some '\x0c'
  | 'n' => some '\n'
  | 'r' => some '\r'
  | 't' => some '\t'
  | _ => none

/-- The characters up to the quote that closes a string. -/
def readChars : List Char → Option (List Char × List Char)
  | [] => none
  | '"' :: s => some ([], s)
  | '\\' :: 'u' :: a :: b :: c :: d :: s =>
    (codePoint? a b c d).bind fun c => (readChars s).map fun (cs, rest) => (c :: cs, rest)
  | '\\' :: e :: s =>
    (unescaped? e).bind fun c => (readChars s).map fun (cs, rest) => (c :: cs, rest)
  | ['\\'] => none
  | c :: s => (readChars s).map fun (cs, rest) => (c :: cs, rest)

/-! ## Values -/

mutual

/-- The value at the head of a text. The fuel is used up by values, items and members; the length
of the text is enough. -/
def readValue : Nat → List Char → Option (Json × List Char)
  | 0, _ => none
  | fuel + 1, s =>
    match skip s with
    | 'n' :: 'u' :: 'l' :: 'l' :: s => some (null, s)
    | 't' :: 'r' :: 'u' :: 'e' :: s => some (bool true, s)
    | 'f' :: 'a' :: 'l' :: 's' :: 'e' :: s => some (bool false, s)
    | '"' :: s => (readChars s).map fun (cs, rest) => (str (String.ofList cs), rest)
    | '[' :: s =>
      match skip s with
      | ']' :: s => some (arr [], s)
      | s => (readItems fuel s).map fun (items, rest) => (arr items, rest)
    | '\x7b' :: s =>
      match skip s with
      | '\x7d' :: s => some (obj [], s)
      | s => (readMembers fuel s).map fun (members, rest) => (obj members, rest)
    | s => readNumber s

/-- The items of a list up to its end; there is at least one. -/
def readItems : Nat → List Char → Option (List Json × List Char)
  | 0, _ => none
  | fuel + 1, s => do
    let (item, s) ← readValue fuel s
    match skip s with
    | ',' :: s => (readItems fuel s).map fun (items, rest) => (item :: items, rest)
    | ']' :: s => some ([item], s)
    | _ => none

/-- The members of an object up to its end; there is at least one. -/
def readMembers : Nat → List Char → Option (List (String × Json) × List Char)
  | 0, _ => none
  | fuel + 1, s =>
    match skip s with
    | '"' :: s => do
      let (key, s) ← readChars s
      match skip s with
      | ':' :: s => do
        let (value, s) ← readValue fuel s
        match skip s with
        | ',' :: s => (readMembers fuel s).map fun (members, rest) =>
          ((String.ofList key, value) :: members, rest)
        | '\x7d' :: s => some ([(String.ofList key, value)], s)
        | _ => none
      | _ => none
    | _ => none

end

/-- The value that a text is. -/
def read? (text : String) : Option Json :=
  match readValue text.toList.length text.toList with
  | some (value, rest) => if skip rest = [] then some value else none
  | none => none

mutual

/-- What a value in print reads as: the reals that JSON has no numbers for are lost. -/
def inPrint : Json → Json
  | null => null
  | bool b => bool b
  | int n => int n
  | real v => if v.isFinite then real v else null
  | str s => str s
  | arr items => arr (itemsInPrint items)
  | obj members => obj (membersInPrint members)

/-- What the items of a list in print read as. -/
def itemsInPrint : List Json → List Json
  | [] => []
  | item :: items => inPrint item :: itemsInPrint items

/-- What the members of an object in print read as. -/
def membersInPrint : List (String × Json) → List (String × Json)
  | [] => []
  | (key, value) :: members => (key, inPrint value) :: membersInPrint members

end

/-- The member of an object with a given name. -/
def member? (name : String) : Json → Option Json
  | obj members => members.lookup name
  | _ => none

end PiecewiseLinear.Json
