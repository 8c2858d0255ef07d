import PiecewiseLinear.Script.ExprParser

/-!
# Reading functions

```text
function    = "def" identifier "(" identifier [":" identifier] ")" ["->" identifier] ":"
              statement+
statement   = conditional | return | assignment
conditional = "if" branch ("elif" branch)* ["else" ":" return]
branch      = disjunction ":" return
return      = "return" disjunction
assignment  = identifier "=" disjunction
```

Indentation has no meaning: each branch holds one return. Layout may stand before a
statement, before `elif` and `else`, and after a colon; elsewhere only blanks may.

- `Parse`: reading that says on failure where the text stood, what was expected there and
  whether another way of reading may still be tried.
- `Function.parse`: reading a whole text as a function.

Of nested constructs that fail together the innermost one is named. An alternative fails
as its last one does.
-/

namespace PiecewiseLinear.Script

/-- Why reading failed: the innermost named construct, and whether the failure is final. -/
structure Failure where
  expected : Option Construct
  final : Bool
deriving DecidableEq, Repr

/-- Reading off the head of a text. A failure leaves the text where reading stopped. -/
abbrev Parse (α : Type) := EStateM Failure (List Char) α

namespace Parse

/-- Fails here. -/
def fail {α : Type} : Parse α := throw ⟨none, false⟩

/-- Reads what may fail only where it starts. -/
def ofScan {α : Type} (p : Scan α) : Parse α := fun s =>
  match p s with
  | some (a, rest) => .ok a rest
  | none => .error ⟨none, false⟩ s

/-- Skips blanks and tabs. -/
def blanks : Parse Unit := modify skipBlanks

/-- Skips blanks, line ends and comments. -/
def layout : Parse Unit := modify skipLayout

/-- Reads a piece. -/
def piece (text : List Char) : Parse Unit := ofScan (Scan.piece text)

/-- Reads a keyword. A word that goes on beyond it fails behind the keyword. -/
def keyword (word : List Char) : Parse Unit := do
  piece word
  if continuesWord (← get) then fail

/-- Reads an identifier. -/
def ident : Parse String := ofScan ident?

/-- Names the construct that is read, for failures that name none yet. -/
def named {α : Type} (construct : Construct) (p : Parse α) : Parse α := fun s =>
  match p s with
  | .ok a rest => .ok a rest
  | .error e stop => .error { e with expected := e.expected <|> some construct } stop

/-- Makes every failure final. -/
def committed {α : Type} (p : Parse α) : Parse α := fun s =>
  match p s with
  | .ok a rest => .ok a rest
  | .error e stop => .error { e with final := true } stop

/-- Reads in one way or, where that fails and the failure is not final, in another. -/
def either {α : Type} (p q : Parse α) : Parse α := fun s =>
  match p s with
  | .ok a rest => .ok a rest
  | .error e stop => if e.final then .error e stop else q s

/-- Reads something that may be missing. -/
def optional {α : Type} (p : Parse α) : Parse (Option α) := either (some <$> p) (pure none)

/-- Reads at most `count` of the same thing, for as long as it is there. -/
def upTo {α : Type} (p : Parse α) : Nat → Parse (List α)
  | 0 => pure []
  | count + 1 => do
    match ← optional p with
    | some a => return a :: (← upTo p count)
    | none => return []

/-- Reads the same thing for as long as it is there. Nothing that takes a character each
time can be there more often than the text is long. -/
def many {α : Type} (p : Parse α) : Parse (List α) := fun s => upTo p s.length s

/-- Reads the same thing at least once. -/
def many1 {α : Type} (p : Parse α) : Parse (List α) := do
  let first ← p
  return first :: (← many p)

end Parse

open Parse

/-- Reads an expression, which fails where it starts. -/
def expression : Parse Expr := named .expression (ofScan Expr.scan)

/-- Reads `return` and its value. -/
def returned : Parse Expr := named .returnStatement do
  keyword "return".toList; blanks
  committed expression

/-- Reads a condition and the value returned under it. -/
def branch : Parse (Expr × Expr) := do
  blanks
  let test ← expression
  blanks; piece ":".toList; layout
  return (test, ← returned)

/-- The alternative of a conditional from its `elif` branches and its `else` value. -/
def alternativeOf (branches : List (Expr × Expr)) (otherwise : Option Expr) : Option Stmt :=
  branches.foldr (fun (test, value) rest => some (.cond test value rest)) (otherwise.map .ret)

/-- Reads a conditional. -/
def conditional : Parse Stmt := do
  keyword "if".toList
  let (test, value) ← committed branch
  let branches ← many do layout; keyword "elif".toList; committed branch
  let otherwise ← Parse.optional do
    layout; keyword "else".toList
    committed do blanks; piece ":".toList; layout; returned
  return .cond test value (alternativeOf branches otherwise)

/-- Reads an assignment. -/
def assignment : Parse Stmt := do
  let name ← ident
  blanks; piece "=".toList
  if (← get).head? = some '=' then fail
  blanks
  return .assign name (← committed expression)

/-- Reads a statement. -/
def statement : Parse Stmt :=
  named .statement (either conditional (either (.ret <$> returned) assignment))

/-- Reads a function, with the layout around it. -/
def function : Parse Function := do
  layout; keyword "def".toList; blanks
  let name ← named .functionName (committed ident)
  blanks; piece "(".toList; blanks
  let param ← named .parameter (committed ident)
  let _ ← Parse.optional do blanks; piece ":".toList; blanks; ident
  blanks; piece ")".toList
  let _ ← Parse.optional do blanks; piece "->".toList; blanks; ident
  blanks; piece ":".toList
  let body ← named .functionBody (many1 do layout; statement)
  layout
  return ⟨name, param, body⟩

/-- Reads a whole text as a function. -/
def Function.parse (source : String) : Except ParseError Function :=
  let text := source.toList
  match function text with
  | .ok f rest => complete text f rest
  | .error e stop => .error ⟨.invalid e.expected, .ofRest text stop⟩

end PiecewiseLinear.Script
