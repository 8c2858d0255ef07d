import PiecewiseLinear.Number.Decimal

/-!
# Lexemes of scripts

The smallest pieces of a script, as functions that take them off the head of a text.

- `skipBlanks`: blanks and tabs, which may stand between any two pieces.
- `skipLayout`: these, line ends and comments, which may stand between statements, after a
  colon and inside parentheses. A comment runs from `#` to the end of its line.
- `after? piece s`: what follows a given piece at the head of a text.
- `keyword? word s`: what follows a word that ends there.
- `ident? s`: the identifier at the head of a text, which is no keyword.
-/

namespace PiecewiseLinear.Script

/-- The words that cannot be identifiers. -/
def keywords : List (List Char) :=
  ["def".toList, "if".toList, "elif".toList, "else".toList, "return".toList, "and".toList,
    "or".toList, "not".toList]

/-- Whether a character may stand in an identifier. -/
def isWordChar (c : Char) : Bool := c.isAlphanum || c = '_'

/-- Whether a character may begin an identifier. -/
def isWordStart (c : Char) : Bool := c.isAlpha || c = '_'

/-- Whether a character separates pieces within a line. -/
def isBlankInLine (c : Char) : Bool := c = ' ' || c = '\t'

/-- Whether a character separates pieces where lines may end. -/
def isLayout (c : Char) : Bool := isBlankInLine c || c = '\n' || c = '\r'

/-- A text without the blanks and tabs at its head. -/
def skipBlanks (s : List Char) : List Char := s.dropWhile isBlankInLine

/-- A text without the layout at its head, where `inComment` tells whether the text begins
within a comment. The line end that closes a comment is layout itself. -/
def skipLayoutFrom (inComment : Bool) : List Char → List Char
  | [] => []
  | c :: s =>
    if inComment then skipLayoutFrom (c != '\n') s
    else if isLayout c then skipLayoutFrom false s
    else if c = '#' then skipLayoutFrom true s
    else c :: s

/-- A text without the blanks, line ends and comments at its head. -/
def skipLayout (s : List Char) : List Char := skipLayoutFrom false s

/-- What follows a piece at the head of a text. -/
def after? : List Char → List Char → Option (List Char)
  | [], s => some s
  | c :: piece, d :: s => if c = d then after? piece s else none
  | _ :: _, [] => none

/-- Whether a text goes on with a character of identifiers. -/
def continuesWord : List Char → Bool
  | c :: _ => isWordChar c
  | [] => false

/-- What follows a word at the head of a text, where the word ends. -/
def keyword? (word s : List Char) : Option (List Char) :=
  match after? word s with
  | some rest => if continuesWord rest then none else some rest
  | none => none

/-- The identifier at the head of a text, and what follows it. -/
def ident? (s : List Char) : Option (String × List Char) :=
  match s with
  | [] => none
  | c :: _ =>
    let word := s.takeWhile isWordChar
    if isWordStart c && !keywords.contains word then
      some (String.ofList word, s.dropWhile isWordChar)
    else none

end PiecewiseLinear.Script
