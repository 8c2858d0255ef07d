import PiecewiseLinear.Script.ExprParser

/-!
# The grammar of scripts

Which trees can be written, which texts are expressions and functions, and which ones they are,
said without reading them: nothing here tries one thing after another or takes as much as it can.

```text
disjunction = conjunction (_ "or" _ conjunction)*
conjunction = negated (_ "and" _ negated)*
negated     = "not" _ negated | comparison
comparison  = sum (_ comparator _ sum)*
sum         = product (_ ("+" | "-") _ product)*
product     = signed (_ ("*" | "/" | "%") _ signed)*
signed      = ("-" | "+") _ signed | power
power       = called [_ "**" _ signed]
called      = primary (_ "(" gap [disjunction (_ "," gap disjunction)* [_ ","]] gap ")")*
primary     = "(" gap disjunction gap ")" | number | identifier
number      = digits ["." digit*] [exponent] | "." digits [exponent]
exponent    = ("e" | "E") ["+" | "-"] digits
```

- `IsIdentifier`: names that can be written.
- `Expr.WellFormed`, `Stmt.WellFormed`, `Function.WellFormed`: trees that can be written. A tree
  that was not read off a text may have names that are no identifiers, numbers that no literal
  denotes, chains without a link, or an assignment as an alternative.
- `IsBlanks`, `IsGap`: the separators, `_` and `gap` above.
- `IsExponent`, `IsLiteral`: the texts of numbers.
- `Phrase b s e r`: the text `s` begins with a phrase of binding `b` for the expression `e`,
  and `r` follows the phrase.
- `IsHint`, `IsEnd`: type hints and what may follow the last statement.
- `Stmt.stretches`, `Function.stretches`: the words of a function and the gaps between them.
- `LaidOut`, `Function.LaidOut`: the texts with those words, whatever stands in the gaps.

A function in print is words with gaps between them, and the gaps are lines and indentation only
because that is how functions are printed. Any other gaps may stand there.

What follows a phrase is part of the rules because a few pieces depend on it: a word ends where
no character of words follows, and neither `*` nor `/` is followed by another one of its kind.
-/

namespace PiecewiseLinear.Script

/-! ## Well-formed trees -/

/-- Names that can be written: letters, digits and underscores, of which the first is no digit,
and no keyword. -/
structure IsIdentifier (name : String) : Prop where
  start : ∃ c ∈ name.toList.head?, isWordStart c = true
  word : ∀ c ∈ name.toList, isWordChar c = true
  not_keyword : name.toList ∉ keywords

/-- Expressions that can be written. -/
inductive Expr.WellFormed : Expr → Prop where
  | ident {name : String} (hname : IsIdentifier name) : WellFormed (ident name)
  | number {v : Float} (hfinite : v.isFinite = true) (hsign : Double.isNegative v = false) :
      WellFormed (number v)
  | unary {op : UnaryOp} {operand : Expr} (hoperand : WellFormed operand) :
      WellFormed (unary op operand)
  | binary {lhs : Expr} {op : BinaryOp} {rhs : Expr} (hlhs : WellFormed lhs)
      (hrhs : WellFormed rhs) : WellFormed (binary lhs op rhs)
  | compare {first : Expr} {links : List (Comparator × Expr)} (hfirst : WellFormed first)
      (hne : links ≠ []) (hlinks : ∀ link ∈ links, WellFormed link.2) :
      WellFormed (compare first links)
  | junction {connective : Connective} {operands : List Expr} (hlength : 2 ≤ operands.length)
      (hoperands : ∀ operand ∈ operands, WellFormed operand) :
      WellFormed (junction connective operands)
  | call {callee : Expr} {arguments : List Expr} (hcallee : WellFormed callee)
      (harguments : ∀ argument ∈ arguments, WellFormed argument) :
      WellFormed (call callee arguments)

/-- Whether a statement is an assignment. -/
def Stmt.isAssign : Stmt → Bool
  | assign .. => true
  | _ => false

/-- Statements that can be written. An alternative is no assignment. -/
inductive Stmt.WellFormed : Stmt → Prop where
  | cond {test value : Expr} {alternative : Option Stmt} (htest : test.WellFormed)
      (hvalue : value.WellFormed) (halternative : ∀ stmt ∈ alternative, WellFormed stmt)
      (hassign : ∀ stmt ∈ alternative, stmt.isAssign = false) :
      WellFormed (cond test value alternative)
  | ret {value : Expr} (hvalue : value.WellFormed) : WellFormed (ret value)
  | assign {name : String} {value : Expr} (hname : IsIdentifier name)
      (hvalue : value.WellFormed) : WellFormed (assign name value)

/-- Functions that can be written. -/
structure Function.WellFormed (f : Function) : Prop where
  name : IsIdentifier f.name
  param : IsIdentifier f.param
  body_ne_nil : f.body ≠ []
  body : ∀ stmt ∈ f.body, stmt.WellFormed

/-! ## Separators -/

/-- Blanks and tabs. -/
def IsBlanks (g : List Char) : Prop := ∀ c ∈ g, isBlankInLine c = true

/-- Blanks, tabs, line ends and comments. A comment runs to the end of its line. -/
inductive IsGap : List Char → Prop where
  | nil : IsGap []
  | cons {c : Char} {g : List Char} (hc : isLayout c = true) (hg : IsGap g) : IsGap (c :: g)
  | comment {text g : List Char} (htext : '\n' ∉ text) (hg : IsGap g) :
      IsGap ('#' :: (text ++ '\n' :: g))

/-! ## Numbers -/

/-- Digits, of which there is at least one. -/
structure IsDigits (digits : List Char) : Prop where
  ne_nil : digits ≠ []
  isDigit : ∀ c ∈ digits, c.isDigit = true

/-- The exponent of a literal, which may be missing. -/
inductive IsExponent : List Char → Int → Prop where
  | none : IsExponent [] 0
  | plain {mark : Char} {digits : List Char} (hmark : mark = 'e' ∨ mark = 'E')
      (hdigits : IsDigits digits) : IsExponent (mark :: digits) (Decimal.value digits)
  | plus {mark : Char} {digits : List Char} (hmark : mark = 'e' ∨ mark = 'E')
      (hdigits : IsDigits digits) : IsExponent (mark :: '+' :: digits) (Decimal.value digits)
  | minus {mark : Char} {digits : List Char} (hmark : mark = 'e' ∨ mark = 'E')
      (hdigits : IsDigits digits) : IsExponent (mark :: '-' :: digits) (-Decimal.value digits)

/-- The literals, with the decimals that they denote. -/
inductive IsLiteral : List Char → Decimal → Prop where
  | whole {whole e : List Char} {n : Int} (hwhole : IsDigits whole) (he : IsExponent e n) :
      IsLiteral (whole ++ e) (.ofDigits whole [] n)
  | point {whole fraction e : List Char} {n : Int} (hwhole : IsDigits whole)
      (hfraction : ∀ c ∈ fraction, c.isDigit = true) (he : IsExponent e n) :
      IsLiteral (whole ++ '.' :: (fraction ++ e)) (.ofDigits whole fraction n)
  | fraction {fraction e : List Char} {n : Int} (hfraction : IsDigits fraction)
      (he : IsExponent e n) : IsLiteral ('.' :: (fraction ++ e)) (.ofDigits [] fraction n)

/-! ## Phrases -/

/-- A sign of multiplication or division is not the first half of a doubled one. -/
def NotDoubled (op : BinaryOp) (r : List Char) : Prop :=
  (op = .arith .mul → r.head? ≠ some '*') ∧ (op = .arith .div → r.head? ≠ some '/')

open PiecewiseLinear.Script.Expr

mutual

/-- The text `s` begins with a phrase for `e` that binds at least as tightly as asked for, and `r`
follows it. What binds most tightly is a primary. -/
inductive Phrase : Binding → List Char → Expr → List Char → Prop where
  | junction {connective : Connective} {s t r : List Char} {first : Expr} {rest : List Expr}
      (hfirst : Phrase (connectiveBinding connective).tighter s first t)
      (hrest : Operands connective t rest r) :
      Phrase (connectiveBinding connective) s (joined connective first rest) r
  | negated {g s r : List Char} {e : Expr} (hg : IsBlanks g)
      (hword : continuesWord (g ++ s) = false) (h : Phrase .negation s e r) :
      Phrase .negation ("not".toList ++ (g ++ s)) (unary .not e) r
  | unnegated {s r : List Char} {e : Expr} (h : Phrase .comparison s e r) : Phrase .negation s e r
  | comparison {s t r : List Char} {first : Expr} {links : List (Comparator × Expr)}
      (hfirst : Phrase .sum s first t) (hlinks : Links t links r) :
      Phrase .comparison s (chained first links) r
  | sum {s t r : List Char} {first : Expr} {terms : List (BinaryOp × Expr)}
      (hfirst : Phrase .product s first t) (hterms : Terms .sum t terms r) :
      Phrase .sum s (grouped first terms) r
  | product {s t r : List Char} {first : Expr} {terms : List (BinaryOp × Expr)}
      (hfirst : Phrase .sign s first t) (hterms : Terms .product t terms r) :
      Phrase .product s (grouped first terms) r
  | signed {op : UnaryOp} {g s r : List Char} {e : Expr} (hop : op = .neg ∨ op = .pos)
      (hg : IsBlanks g) (h : Phrase .sign s e r) :
      Phrase .sign (op.symbol.toList ++ (g ++ s)) (unary op e) r
  | unsigned {s r : List Char} {e : Expr} (h : Phrase .power s e r) : Phrase .sign s e r
  | power {g g' s t r : List Char} {base exponent : Expr} (hg : IsBlanks g) (hg' : IsBlanks g')
      (hbase : Phrase .atom s base (g ++ ("**".toList ++ (g' ++ t))))
      (hexponent : Phrase .sign t exponent r) : Phrase .power s (binary base .pow exponent) r
  | unraised {s r : List Char} {e : Expr} (h : Phrase .atom s e r) : Phrase .power s e r
  | called {s t r : List Char} {callee : Expr} {calls : List (List Expr)}
      (hcallee : Phrase Binding.atom.tighter s callee t) (hcalls : Calls t calls r) :
      Phrase .atom s (calls.foldl call callee) r
  | parenthesized {g g' s r : List Char} {e : Expr} (hg : IsGap g) (hg' : IsGap g')
      (h : Phrase .disjunction s e (g' ++ ')' :: r)) :
      Phrase Binding.atom.tighter ('(' :: (g ++ s)) e r
  | number {s r : List Char} {d : Decimal} (hs : IsLiteral s d) :
      Phrase Binding.atom.tighter (s ++ r) (number d.toFloat) r
  | ident {name : String} {r : List Char} (hname : IsIdentifier name)
      (hword : continuesWord r = false) :
      Phrase Binding.atom.tighter (name.toList ++ r) (ident name) r

/-- Further operands, each behind the word of the connective. -/
inductive Operands : Connective → List Char → List Expr → List Char → Prop where
  | nil {connective : Connective} {s : List Char} : Operands connective s [] s
  | cons {connective : Connective} {g g' s t r : List Char} {e : Expr} {rest : List Expr}
      (hg : IsBlanks g) (hg' : IsBlanks g') (hword : continuesWord (g' ++ s) = false)
      (h : Phrase (connectiveBinding connective).tighter s e t)
      (hrest : Operands connective t rest r) :
      Operands connective (g ++ (connective.word.toList ++ (g' ++ s))) (e :: rest) r

/-- The links of a chain of comparisons. -/
inductive Links : List Char → List (Comparator × Expr) → List Char → Prop where
  | nil {s : List Char} : Links s [] s
  | cons {op : Comparator} {g g' s t r : List Char} {e : Expr} {links : List (Comparator × Expr)}
      (hg : IsBlanks g) (hg' : IsBlanks g') (h : Phrase .sum s e t) (hlinks : Links t links r) :
      Links (g ++ (op.symbol.toList ++ (g' ++ s))) ((op, e) :: links) r

/-- Further terms of a sum or a product, each behind an operator of that binding. -/
inductive Terms : Binding → List Char → List (BinaryOp × Expr) → List Char → Prop where
  | nil {b : Binding} {s : List Char} : Terms b s [] s
  | cons {b : Binding} {op : BinaryOp} {g g' s t r : List Char} {e : Expr}
      {terms : List (BinaryOp × Expr)} (hop : binaryBinding op = b) (hg : IsBlanks g)
      (hg' : IsBlanks g') (hdoubled : NotDoubled op (g' ++ s)) (h : Phrase b.tighter s e t)
      (hterms : Terms b t terms r) :
      Terms b (g ++ (op.symbol.toList ++ (g' ++ s))) ((op, e) :: terms) r

/-- Calls of what stands in front, each with its arguments in parentheses. -/
inductive Calls : List Char → List (List Expr) → List Char → Prop where
  | nil {s : List Char} : Calls s [] s
  | cons {g w w' s t r : List Char} {arguments : List Expr} {calls : List (List Expr)}
      (hg : IsBlanks g) (hw : IsGap w) (hw' : IsGap w')
      (harguments : Arguments s arguments (w' ++ ')' :: t)) (hcalls : Calls t calls r) :
      Calls (g ++ '(' :: (w ++ s)) (arguments :: calls) r

/-- The arguments of a call, if there are any, with commas between them and perhaps behind. -/
inductive Arguments : List Char → List Expr → List Char → Prop where
  | none {s : List Char} : Arguments s [] s
  | some {s t r : List Char} {first : Expr} {rest : List Expr}
      (hfirst : Phrase .disjunction s first t) (hrest : FurtherArguments t rest r) :
      Arguments s (first :: rest) r
  | trailing {g s t r : List Char} {first : Expr} {rest : List Expr} (hg : IsBlanks g)
      (hfirst : Phrase .disjunction s first t) (hrest : FurtherArguments t rest (g ++ ',' :: r)) :
      Arguments s (first :: rest) r

/-- Further arguments, each behind a comma. -/
inductive FurtherArguments : List Char → List Expr → List Char → Prop where
  | nil {s : List Char} : FurtherArguments s [] s
  | cons {g w s t r : List Char} {e : Expr} {rest : List Expr} (hg : IsBlanks g) (hw : IsGap w)
      (h : Phrase .disjunction s e t) (hrest : FurtherArguments t rest r) :
      FurtherArguments (g ++ ',' :: (w ++ s)) (e :: rest) r

end

/-! ## Functions -/

/-- The texts of a type hint behind its mark, which may be missing. -/
inductive IsHint (mark : String) : List Char → Prop where
  | none : IsHint mark []
  | some {g g' : List Char} {name : String} (hg : IsBlanks g) (hg' : IsBlanks g')
      (hname : IsIdentifier name) : IsHint mark (g ++ (mark.toList ++ (g' ++ name.toList)))

/-- What may follow the last statement. The last comment need not be closed. -/
inductive IsEnd : List Char → Prop where
  | gap {g : List Char} (hg : IsGap g) : IsEnd g
  | comment {g text : List Char} (hg : IsGap g) (htext : '\n' ∉ text) : IsEnd (g ++ '#' :: text)

/-- A stretch of a text: words that stay as they are, or a gap, which is printed in one way. Some
gaps separate two words that would run into each other. -/
inductive Stretch where
  | words (text : String)
  | gap (separates : Bool) (printed : String)

/-- A stretch in print. -/
def Stretch.text : Stretch → String
  | words text => text
  | gap _ printed => printed

/-- Stretches in print. -/
def printed (stretches : List Stretch) : String := String.join (stretches.map Stretch.text)

/-- A new line at a depth. -/
def newLine (depth : Nat) : String := "\n" ++ indentation depth

namespace Stmt

/-- The stretches of a condition behind its keyword and of the value under it. -/
def branchStretches (keyword : String) (depth : Nat) (test value : Expr) : List Stretch :=
  [.words (keyword ++ " " ++ test.text ++ ":"), .gap false (newLine (depth + 1)),
    .words ("return " ++ value.text)]

/-- The stretches of what follows a conditional at a depth. -/
def alternativeStretches (depth : Nat) : Option Stmt → List Stretch
  | none => []
  | some (cond test value alternative) =>
    .gap true (newLine depth) ::
      (branchStretches "elif" depth test value ++ alternativeStretches depth alternative)
  | some (ret value) =>
    [.gap true (newLine depth), .words "else:", .gap false (newLine (depth + 1)),
      .words ("return " ++ value.text)]
  | some (assign name value) =>
    [.gap true (newLine depth), .words "else:", .gap false (newLine (depth + 1)),
      .words (name ++ " = " ++ value.text)]

/-- The stretches of a statement at a depth. -/
def stretches (depth : Nat) : Stmt → List Stretch
  | cond test value alternative =>
    branchStretches "if" depth test value ++ alternativeStretches depth alternative
  | ret value => [.words ("return " ++ value.text)]
  | assign name value => [.words (name ++ " = " ++ value.text)]

end Stmt

/-- The stretches of a function with these type hints. -/
def Function.stretches (f : Function) (hint returns : String) : List Stretch :=
  .gap false "" :: .words ("def " ++ f.name ++ "(" ++ f.param ++ hint ++ ")" ++ returns ++ ":") ::
    .gap false (newLine 1) ::
      [Stretch.gap true (newLine 1)].intercalate (f.body.map (Stmt.stretches 1))

/-- Texts with the words of these stretches and any gaps between them. A gap that separates words
is not empty. -/
inductive LaidOut : List Stretch → List Char → Prop where
  | nil : LaidOut [] []
  | words {text : String} {stretches : List Stretch} {s : List Char} (h : LaidOut stretches s) :
      LaidOut (.words text :: stretches) (text.toList ++ s)
  | gap {separates : Bool} {printed : String} {stretches : List Stretch} {g s : List Char}
      (hg : IsGap g) (hne : separates = true → g ≠ []) (h : LaidOut stretches s) :
      LaidOut (.gap separates printed :: stretches) (g ++ s)

/-- The layouts of a function: those of its stretches, with or without type hints. -/
inductive Function.LaidOut (f : Function) : List Char → Prop where
  | intro {hint returns : String} {s r : List Char} (hhint : IsHint ":" hint.toList)
      (hreturns : IsHint "->" returns.toList)
      (hs : Script.LaidOut (f.stretches hint returns) s) (hr : IsEnd r) : f.LaidOut (s ++ r)

end PiecewiseLinear.Script
