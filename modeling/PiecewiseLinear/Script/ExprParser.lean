import PiecewiseLinear.Script.Basic
import PiecewiseLinear.Script.Lexeme
import PiecewiseLinear.Text.Basic

/-!
# Reading expressions

An expression is read off the head of a text, as far as it goes. The grammar, from the
loosest operator to the tightest:

```text
disjunction = conjunction ("or" conjunction)*
conjunction = negated ("and" negated)*
negated     = "not" negated | comparison
comparison  = sum (comparator sum)*
sum         = product (("+" | "-") product)*
product     = signed (("*" | "/" | "%") signed)*
signed      = ("-" | "+") signed | power
power       = called ["**" signed]
called      = primary ("(" [disjunction ("," disjunction)* [","]] ")")*
primary     = "(" disjunction ")" | number | identifier
```

- `Scan`: functions that read off the head of a text or fail.
- `Scan.many`: reading the same thing for as long as it is there.
- `Expr.scan`: reading an expression.
- `Expr.parse`: reading a whole text as an expression, between blanks.

The grammar refers back to itself in three places: a disjunction in parentheses, a
negated condition after `not`, and a signed operand after a sign or `**`. `Entry` names
them, each level takes the readers for them as an argument, and `Expr.scanAt` ties the
knot. It counts how deep it may still go; a reference back always follows a character of
its own, so one more than the length of the text is deep enough.
-/

namespace PiecewiseLinear.Script

/-- Reading off the head of a text: a result and what follows, or nothing. -/
abbrev Scan (α : Type) := StateT (List Char) Option α

namespace Scan

/-- Skips blanks and tabs. -/
def blanks : Scan Unit := fun s => some ((), skipBlanks s)

/-- Skips blanks, line ends and comments. -/
def layout : Scan Unit := fun s => some ((), skipLayout s)

/-- Reads a piece. -/
def piece (text : List Char) : Scan Unit := fun s => (after? text s).map fun rest => ((), rest)

/-- Reads a piece that does not go on with the character `next`. -/
def pieceNotBefore (text : List Char) (next : Char) : Scan Unit := fun s =>
  match after? text s with
  | some rest => if rest.head? = some next then none else some ((), rest)
  | none => none

/-- Reads a keyword. -/
def keyword (word : List Char) : Scan Unit := fun s =>
  (keyword? word s).map fun rest => ((), rest)

/-- Reads at most `count` of the same thing, for as long as it is there. -/
def upTo {α : Type} (item : Scan α) : Nat → List Char → List α × List Char
  | 0, s => ([], s)
  | count + 1, s =>
    match item s with
    | some (a, rest) =>
      let (more, rest) := upTo item count rest
      (a :: more, rest)
    | none => ([], s)

/-- Reads the same thing for as long as it is there. Nothing that takes a character each
time can be there more often than the text is long. -/
def many {α : Type} (item : Scan α) : Scan (List α) := fun s => some (upTo item s.length s)

/-- Reads something that may be missing. -/
def optional {α : Type} (item : Scan α) : Scan (Option α) := fun s =>
  match item s with
  | some (a, rest) => some (some a, rest)
  | none => some (none, s)

end Scan

open Scan

/-- Reads the symbol of a comparison; a longer one comes before its beginning. -/
def comparator : Scan Comparator :=
  (do piece "==".toList; return .eq) <|> (do piece "!=".toList; return .ne) <|>
  (do piece "<=".toList; return .le) <|> (do piece ">=".toList; return .ge) <|>
  (do piece "<".toList; return .lt) <|> (do piece ">".toList; return .gt)

/-- Reads the operator of a sum. -/
def sumOp : Scan BinaryOp :=
  (do piece "+".toList; return .arith .add) <|> (do piece "-".toList; return .arith .sub)

/-- Reads the operator of a product, which is no half of a doubled one. -/
def productOp : Scan BinaryOp :=
  (do pieceNotBefore "*".toList '*'; return .arith .mul) <|>
  (do pieceNotBefore "/".toList '/'; return .arith .div) <|>
  (do piece "%".toList; return .mod)

/-- The places where the grammar of expressions refers back to itself. -/
inductive Entry where
  | disjunction
  | negated
  | signed
deriving DecidableEq, Repr

/-- The readers for these places. -/
abbrev Nested := Entry → Scan Expr

namespace Expr

/-- Operands joined by a connective; a single one stands for itself. -/
def joined (connective : Connective) (first : Expr) : List Expr → Expr
  | [] => first
  | rest => junction connective (first :: rest)

/-- Operators of one binding with their right operands, grouped to the left. -/
def grouped (first : Expr) (rest : List (BinaryOp × Expr)) : Expr :=
  rest.foldl (fun lhs (op, rhs) => binary lhs op rhs) first

/-- A chain of comparisons; a chain of none is its first operand. -/
def chained (first : Expr) : List (Comparator × Expr) → Expr
  | [] => first
  | links => compare first links

/-- A number literal. -/
def number? : Scan Expr := fun s =>
  (Decimal.scan s).map fun (d, rest) => (number d.toFloat, rest)

/-- An identifier. -/
def name? : Scan Expr := fun s => (ident? s).map fun (name, rest) => (ident name, rest)

/-- A disjunction in parentheses. -/
def parenthesized (nested : Nested) : Scan Expr := do
  piece "(".toList; layout
  let inner ← nested .disjunction
  layout; piece ")".toList
  return inner

/-- What is tightest: parentheses, a number or an identifier. -/
def primary (nested : Nested) : Scan Expr := parenthesized nested <|> number? <|> name?

/-- One or more arguments with commas between them and perhaps behind them. -/
def someArguments (nested : Nested) : Scan (List Expr) := do
  let first ← nested .disjunction
  let rest ← many do blanks; piece ",".toList; layout; nested .disjunction
  let _ ← Scan.optional do blanks; piece ",".toList
  return first :: rest

/-- The arguments of a call in their parentheses. -/
def callArguments (nested : Nested) : Scan (List Expr) := do
  piece "(".toList; layout
  let arguments ← someArguments nested <|> pure []
  layout; piece ")".toList
  return arguments

/-- A primary with the calls made of it. -/
def called (nested : Nested) : Scan Expr := do
  let callee ← primary nested
  let calls ← many do blanks; callArguments nested
  return calls.foldl call callee

/-- A call with its exponent, if it has one. -/
def power (nested : Nested) : Scan Expr := do
  let base ← called nested
  let exponent ← Scan.optional do blanks; piece "**".toList; blanks; nested .signed
  return match exponent with
    | some exponent => binary base .pow exponent
    | none => base

/-- A power behind any number of signs. -/
def signed (nested : Nested) : Scan Expr :=
  (do piece "-".toList; blanks; return unary .neg (← nested .signed)) <|>
  (do piece "+".toList; blanks; return unary .pos (← nested .signed)) <|>
  power nested

/-- Signed operands joined by the operators of a product. -/
def product (nested : Nested) : Scan Expr := do
  let first ← signed nested
  let rest ← many do
    blanks
    let op ← productOp
    blanks
    return (op, ← signed nested)
  return grouped first rest

/-- Products joined by the operators of a sum. -/
def sum (nested : Nested) : Scan Expr := do
  let first ← product nested
  let rest ← many do
    blanks
    let op ← sumOp
    blanks
    return (op, ← product nested)
  return grouped first rest

/-- Sums in a chain of comparisons. -/
def comparison (nested : Nested) : Scan Expr := do
  let first ← sum nested
  let links ← many do
    blanks
    let op ← comparator
    blanks
    return (op, ← sum nested)
  return chained first links

/-- A comparison behind any number of negations. -/
def negated (nested : Nested) : Scan Expr :=
  (do keyword "not".toList; blanks; return unary .not (← nested .negated)) <|> comparison nested

/-- Negated comparisons joined by `and`. -/
def conjunction (nested : Nested) : Scan Expr := do
  let first ← negated nested
  let rest ← many do blanks; keyword "and".toList; blanks; negated nested
  return joined .and first rest

/-- Conjunctions joined by `or`. -/
def disjunction (nested : Nested) : Scan Expr := do
  let first ← conjunction nested
  let rest ← many do blanks; keyword "or".toList; blanks; conjunction nested
  return joined .or first rest

/-- The reader of the grammar from an entry on. -/
def scanFrom (nested : Nested) : Entry → Scan Expr
  | .disjunction => disjunction nested
  | .negated => negated nested
  | .signed => signed nested

/-- Reads from an entry on, with at most `depth` references back inside each other. -/
def scanAt : Nat → Nested
  | 0, _ => failure
  | depth + 1, entry => scanFrom (scanAt depth) entry

/-- Reads an expression, as far as it goes. -/
def scan : Scan Expr := fun s => scanAt (s.length + 1) .disjunction s

end Expr

/-! ## Whole texts -/

/-- What the reader of a script was about to read when it failed. -/
inductive Construct where
  | functionName
  | parameter
  | functionBody
  | statement
  | returnStatement
  | expression
deriving DecidableEq, Repr

/-- The name of a construct. -/
def Construct.description : Construct → String
  | functionName => "function name"
  | parameter => "parameter"
  | functionBody => "function body"
  | statement => "statement"
  | returnStatement => "return statement"
  | expression => "expression"

/-- Why a text cannot be read. -/
inductive ParseFault where
  | invalid (expected : Option Construct)
  | trailingInput
deriving DecidableEq, Repr

/-- Why a text cannot be read, in words. -/
def ParseFault.description : ParseFault → String
  | invalid none => "invalid syntax"
  | invalid (some construct) => "invalid " ++ construct.description
  | trailingInput => "unexpected trailing input"

/-- Why a text cannot be read, and where that shows. -/
structure ParseError where
  fault : ParseFault
  position : Position
deriving DecidableEq, Repr

/-- The error in words. -/
def ParseError.message (e : ParseError) : String :=
  e.fault.description ++ " " ++ e.position.description

/-- Accepts what was read off a text if only blanks follow it. -/
def complete {α : Type} (text : List Char) (result : α) (rest : List Char) :
    Except ParseError α :=
  match rest.dropWhile isBlank with
  | [] => .ok result
  | junk => .error ⟨.trailingInput, .ofRest text junk⟩

/-- Reads a whole text as an expression. Blanks at its two ends do not count, not even for
the position of an error. -/
def Expr.parse (source : String) : Except ParseError Expr :=
  let text := trimBlank source.toList
  match Expr.scan text with
  | some (e, rest) => complete text e rest
  | none => .error ⟨.invalid (some .expression), .ofRest text text⟩

end PiecewiseLinear.Script
