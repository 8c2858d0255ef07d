import PiecewiseLinear.Proofs.Script.Progress

/-!
# Levels of the grammar

The readers of expressions form a ladder. Each one reads an operand with the next reader and goes
on with the operators of its own binding.

- `Expr.reader`, `Expr.goOn`: the reader for a binding, and what it does behind an operand.
- `Expr.reader_eq_none`, `Expr.head_of_reader`: how a text must begin in order to be read.
- `Stops`, `Halts`: texts in front of which the readers for a binding stop.
- `Expr.reader_of_tighter`, `Expr.goOn_of_halts`: one step down the ladder.
-/

namespace PiecewiseLinear.Script

open Scan

variable {nested : Nested} {b : Binding} {s t r : List Char} {e : Expr}

namespace Expr

/-- The reader of what binds at least as tightly as asked for. -/
def reader (nested : Nested) (b : Binding) : Scan Expr :=
  match b.tightness with
  | 0 => disjunction nested
  | 1 => disjunction nested
  | 2 => conjunction nested
  | 3 => negated nested
  | 4 => comparison nested
  | 5 => sum nested
  | 6 => product nested
  | 7 => signed nested
  | 8 => power nested
  | 9 => called nested
  | _ => primary nested

/-- A base with its exponent, if it has one. -/
def raised (base : Expr) : Option Expr → Expr
  | some exponent => binary base .pow exponent
  | none => base

/-- What a reader does behind an operand of the next tighter binding. -/
def goOn (nested : Nested) (b : Binding) (e : Expr) : Scan Expr :=
  match b.tightness with
  | 1 => do return joined .or e (← many (furtherOperand .or (conjunction nested)))
  | 2 => do return joined .and e (← many (furtherOperand .and (negated nested)))
  | 4 => do return chained e (← many (link comparator (sum nested)))
  | 5 => do return grouped e (← many (link sumOp (product nested)))
  | 6 => do return grouped e (← many (link productOp (signed nested)))
  | 8 => do return raised e (← Scan.optional (exponent nested))
  | 9 => do return (← many (furtherCall nested)).foldl call e
  | _ => pure e

/-- Every level of the grammar takes a character if the readers for references back do. -/
theorem takes_reader (h : ∀ entry, Takes (nested entry)) (b : Binding) :
    Takes (reader nested b) := by
  match b with
  | ⟨0⟩ | ⟨1⟩ => exact takes_disjunction h
  | ⟨2⟩ => exact takes_conjunction h
  | ⟨3⟩ => exact takes_negated h
  | ⟨4⟩ => exact takes_comparison h
  | ⟨5⟩ => exact takes_sum h
  | ⟨6⟩ => exact takes_product h
  | ⟨7⟩ => exact takes_signed h
  | ⟨8⟩ => exact takes_power h
  | ⟨9⟩ => exact takes_called h
  | ⟨n + 10⟩ => exact takes_primary h

/-! ## What cannot be read -/

/-- Whether a character may begin a primary. -/
def startsPrimary (c : Char) : Bool := c = '(' || c = '.' || c.isDigit || isWordStart c

theorem after?_eq_none {c : Char} {text : List Char} (h : ∀ d ∈ s.head?, d ≠ c) :
    after? (c :: text) s = none := by
  cases s with
  | nil => rfl
  | cons d s => rw [after?, if_neg (h d rfl).symm]

theorem piece_eq_none {c : Char} {text : List Char} (h : ∀ d ∈ s.head?, d ≠ c) :
    piece (c :: text) s = none := by
  rw [piece, after?_eq_none h, Option.map_none]

theorem number?_eq_none (h : ∀ c ∈ s.head?, c.isDigit = false ∧ c ≠ '.') : number? s = none := by
  rw [number?, Decimal.scan_eq_none h]
  rfl

theorem primary_of_not_parenthesized (h : ∀ c ∈ s.head?, c ≠ '(') :
    primary nested s = (number? <|> name?) s := by
  have hpiece : piece "(".toList s = none := piece_eq_none h
  have hparenthesized : parenthesized nested s = none := bind_of_none hpiece
  rw [primary, orElse_of_none hparenthesized]

/-- Nothing is read as a primary where none begins. -/
theorem primary_eq_none (h : ∀ c ∈ s.head?, startsPrimary c = false) :
    primary nested s = none := by
  have hstart : ∀ c ∈ s.head?, c ≠ '(' ∧ (c.isDigit = false ∧ c ≠ '.') ∧ isWordStart c = false := by
    intro c hc
    have := h c hc
    simp_all [startsPrimary]
  rw [primary_of_not_parenthesized fun c hc => (hstart c hc).1,
    orElse_of_none (number?_eq_none fun c hc => (hstart c hc).2.1), name?,
    ident?_eq_none fun c hc => (hstart c hc).2.2, Option.map_none]

/-- The keyword of a negation is no primary. -/
theorem primary_eq_none_of_not (h : keyword? "not".toList s = some r) :
    primary nested s = none := by
  obtain ⟨rfl, hrest⟩ := eq_append_of_keyword? h
  have hmem : "not".toList ∈ keywords := by simp [keywords]
  have hname : ident? ("not".toList ++ r) = none :=
    ident?_eq_none_of_keyword hmem (List.all_eq_true.mp rfl) hrest
  rw [primary_of_not_parenthesized (by simp), orElse_of_none (number?_eq_none (by simp)), name?,
    hname, Option.map_none]

theorem signed_eq_power (h : ∀ c ∈ s.head?, c ≠ '-' ∧ c ≠ '+') :
    signed nested s = power nested s := by
  have hneg : piece "-".toList s = none := piece_eq_none fun c hc => (h c hc).1
  have hpos : piece "+".toList s = none := piece_eq_none fun c hc => (h c hc).2
  rw [signed, orElse_of_none (bind_of_none hneg), orElse_of_none (bind_of_none hpos)]

theorem negated_eq_comparison (h : keyword? "not".toList s = none) :
    negated nested s = comparison nested s := by
  have hkeyword : keyword "not".toList s = none := by rw [keyword, h, Option.map_none]
  rw [negated, orElse_of_none (bind_of_none hkeyword)]

/-- A reader fails where the next tighter one does, unless a sign or a negation is there. -/
theorem reader_eq_none_of_tighter (h : reader nested b.tighter s = none)
    (hsign : b.tightness ≤ 7 → ∀ c ∈ s.head?, c ≠ '-' ∧ c ≠ '+')
    (hnot : b.tightness ≤ 3 → keyword? "not".toList s = none) : reader nested b s = none := by
  match b with
  | ⟨0⟩ | ⟨n + 10⟩ => exact h
  | ⟨1⟩ | ⟨2⟩ | ⟨4⟩ | ⟨5⟩ | ⟨6⟩ | ⟨8⟩ | ⟨9⟩ => exact bind_of_none h
  | ⟨3⟩ => exact (negated_eq_comparison (hnot (by decide))).trans h
  | ⟨7⟩ => exact (signed_eq_power (hsign (by decide))).trans h

/-- What begins with no primary, no sign and no negation is no expression. -/
theorem reader_eq_none (hprimary : primary nested s = none)
    (hsign : b.tightness ≤ 7 → ∀ c ∈ s.head?, c ≠ '-' ∧ c ≠ '+')
    (hnot : b.tightness ≤ 3 → keyword? "not".toList s = none) : reader nested b s = none := by
  -- along the levels, from the primaries to looser bindings
  induction hdistance : 10 - b.tightness generalizing b with
  | zero =>
    obtain ⟨n, hn⟩ := Nat.exists_eq_add_of_le' (Nat.le_of_sub_eq_zero hdistance)
    obtain rfl : b = ⟨n + 10⟩ := congrArg Binding.mk hn
    exact hprimary
  | succ distance ih =>
    refine reader_eq_none_of_tighter (ih ?_ ?_ ?_) hsign hnot
    · exact fun h => hsign (Nat.le_of_succ_le h)
    · exact fun h => hnot (Nat.le_of_succ_le h)
    · show 10 - (b.tightness + 1) = distance
      omega

/-- Whether a character may begin an expression. -/
def startsExpr (c : Char) : Bool := startsPrimary c || c = '-' || c = '+'

/-- What is read begins with a character that may begin an expression: one of a name or a number, a
sign or a parenthesis. -/
theorem head_of_reader {x : Expr × List Char} (h : reader nested b s = some x) :
    ∃ c ∈ s.head?, startsExpr c = true := by
  by_contra! hstart
  have hhead : ∀ c ∈ s.head?, startsPrimary c = false ∧ c ≠ '-' ∧ c ≠ '+' := by
    intro c hc
    have := hstart c hc
    simp_all [startsExpr]
  have hnot : keyword? "not".toList s = none := by
    cases hkeyword : keyword? "not".toList s with
    | none => rfl
    | some r =>
      obtain ⟨rfl, -⟩ := eq_append_of_keyword? hkeyword
      exact absurd (hhead 'n' rfl).1 (by decide)
  rw [reader_eq_none (primary_eq_none fun c hc => (hhead c hc).1)
    (fun _ c hc => (hhead c hc).2) fun _ => hnot] at h
  cases h

/-- What begins an expression is no layout. -/
theorem isLayout_of_startsExpr {c : Char} (h : startsExpr c = true) :
    isLayout c = false ∧ c ≠ '#' := by
  constructor
  · by_contra hlayout
    rw [Bool.not_eq_false, isLayout_iff, isBlankInLine_iff] at hlayout
    rcases hlayout with (rfl | rfl) | rfl | rfl <;> cases h
  · rintro rfl
    cases h

/-- Nothing is skipped in front of what may begin an expression. -/
theorem skipLayout_of_startsExpr (h : ∀ c ∈ s.head?, startsExpr c = true) : skipLayout s = s :=
  skipLayout_of_head (fun c hc => (isLayout_of_startsExpr (h c hc)).1)
    fun c hc => (isLayout_of_startsExpr (h c hc)).2

theorem skipBlanks_of_startsExpr (h : ∀ c ∈ s.head?, startsExpr c = true) : skipBlanks s = s := by
  refine skipBlanks_of_head fun c hc => ?_
  by_contra hblank
  rw [Bool.not_eq_false] at hblank
  exact Bool.false_ne_true
    ((isLayout_of_startsExpr (h c hc)).1.symm.trans (isLayout_iff.mpr (.inl hblank)))

theorem startsExpr_of_reader {x : Expr × List Char} (h : reader nested b s = some x) :
    ∀ c ∈ s.head?, startsExpr c = true := by
  obtain ⟨d, hd, hstart⟩ := head_of_reader h
  intro c hc
  rwa [Option.some.inj (hc.symm.trans hd)]

end Expr

/-! ## Where readers stop -/

/-- The readers for a binding stop in front of the text: it goes on neither with the lexeme before
it nor with an operator that binds so tightly. -/
structure Stops (b : Binding) (r : List Char) : Prop where
  ends : EndsLexeme r
  call : b.tightness ≤ 9 → after? "(".toList (skipBlanks r) = none
  power : b.tightness ≤ 8 → after? "**".toList (skipBlanks r) = none
  product : b.tightness ≤ 6 → productOp (skipBlanks r) = none
  sum : b.tightness ≤ 5 → sumOp (skipBlanks r) = none
  comparison : b.tightness ≤ 4 → comparator (skipBlanks r) = none
  junction : ∀ connective, b.tightness ≤ (connectiveBinding connective).tightness →
    keyword? connective.word.toList (skipBlanks r) = none

/-- Readers that stop for a loose binding stop for a tighter one. -/
theorem Stops.mono {b' : Binding} (h : Stops b r) (hle : b.tightness ≤ b'.tightness) :
    Stops b' r where
  ends := h.ends
  call hb := h.call (hle.trans hb)
  power hb := h.power (hle.trans hb)
  product hb := h.product (hle.trans hb)
  sum hb := h.sum (hle.trans hb)
  comparison hb := h.comparison (hle.trans hb)
  junction connective hb := h.junction connective (hle.trans hb)

/-- The same in front of a text that may begin with a word: it goes on neither with a literal nor
with an operator that binds so tightly. -/
structure Halts (b : Binding) (r : List Char) : Prop where
  ends : EndsLiteral r
  call : b.tightness ≤ 9 → after? "(".toList (skipBlanks r) = none
  power : b.tightness ≤ 8 → after? "**".toList (skipBlanks r) = none
  product : b.tightness ≤ 6 → productOp (skipBlanks r) = none
  sum : b.tightness ≤ 5 → sumOp (skipBlanks r) = none
  comparison : b.tightness ≤ 4 → comparator (skipBlanks r) = none
  junction : ∀ connective, b.tightness ≤ (connectiveBinding connective).tightness →
    keyword? connective.word.toList (skipBlanks r) = none

theorem Stops.halts (h : Stops b r) : Halts b r :=
  ⟨h.ends.endsLiteral, h.call, h.power, h.product, h.sum, h.comparison, h.junction⟩

/-- Readers that halt for a loose binding halt for a tighter one. -/
theorem Halts.mono {b' : Binding} (h : Halts b r) (hle : b.tightness ≤ b'.tightness) :
    Halts b' r where
  ends := h.ends
  call hb := h.call (hle.trans hb)
  power hb := h.power (hle.trans hb)
  product hb := h.product (hle.trans hb)
  sum hb := h.sum (hle.trans hb)
  comparison hb := h.comparison (hle.trans hb)
  junction connective hb := h.junction connective (hle.trans hb)

namespace Expr

section Links

variable {α : Type} {op : Scan α} {operand : Scan Expr} {o : α} {connective : Connective}

theorem link_eq_none (h : op (skipBlanks s) = none) : link op operand s = none :=
  (bind_of_some rfl).trans (bind_of_none h)

theorem link_of_some (hop : op (skipBlanks s) = some (o, t))
    (hoperand : operand (skipBlanks t) = some (e, r)) : link op operand s = some ((o, e), r) :=
  (bind_of_some rfl).trans ((bind_of_some hop).trans ((bind_of_some rfl).trans
    (bind_of_some hoperand)))

theorem furtherOperand_eq_none (h : keyword? connective.word.toList (skipBlanks s) = none) :
    furtherOperand connective operand s = none :=
  (bind_of_some rfl).trans (bind_of_none (by rw [keyword, h, Option.map_none]))

theorem furtherOperand_of_some (hword : keyword? connective.word.toList (skipBlanks s) = some t)
    (hoperand : operand (skipBlanks t) = some (e, r)) :
    furtherOperand connective operand s = some (e, r) :=
  (bind_of_some rfl).trans ((bind_of_some (by rw [keyword, hword, Option.map_some])).trans
    ((bind_of_some rfl).trans hoperand))

/-- Nothing is there, or something is there and then perhaps more. -/
theorem bind_many_of_none {item : Scan α} (h : item s = none) (f : List α → Expr) :
    (do return f (← many item) : Scan Expr) s = some (f [], s) :=
  bind_of_some (many_of_none h)

/-- What is read first of many is the first of them. -/
theorem bind_many_of_some {item : Scan α} (htakes : Takes item) (h : item s = some (o, r))
    (f : List α → Expr) : (do return f (← many item) : Scan Expr) s =
      (do return f (o :: (← many item)) : Scan Expr) r := by
  have hmany := many_of_some htakes h
  cases hr : many item r with
  | none => cases hr
  | some x =>
    rw [hr] at hmany
    rw [bind_of_some hmany, bind_of_some hr]

end Links

/-- In front of a text at which it stops, a reader does not go on. -/
theorem goOn_of_halts (h : Halts b r) (e : Expr) : goOn nested b e r = some (e, r) := by
  match b with
  | ⟨1⟩ => exact bind_many_of_none (furtherOperand_eq_none (h.junction .or le_rfl)) _
  | ⟨2⟩ => exact bind_many_of_none (furtherOperand_eq_none (h.junction .and le_rfl)) _
  | ⟨4⟩ => exact bind_many_of_none (link_eq_none (h.comparison le_rfl)) _
  | ⟨5⟩ => exact bind_many_of_none (link_eq_none (h.sum (by decide))) _
  | ⟨6⟩ => exact bind_many_of_none (link_eq_none (h.product (by decide))) _
  | ⟨8⟩ =>
    have hpiece : piece "**".toList (skipBlanks r) = none := by
      rw [piece, h.power (by decide), Option.map_none]
    have hexponent : exponent nested r = none := (bind_of_some rfl).trans (bind_of_none hpiece)
    exact bind_of_some (optional_of_none hexponent)
  | ⟨9⟩ =>
    have hpiece : piece "(".toList (skipBlanks r) = none := by
      rw [piece, h.call (by decide), Option.map_none]
    have hcall : furtherCall nested r = none := (bind_of_some rfl).trans (bind_of_none hpiece)
    exact bind_many_of_none hcall _
  | ⟨0⟩ | ⟨3⟩ | ⟨7⟩ | ⟨n + 10⟩ => rfl

theorem goOn_of_stops (h : Stops b r) (e : Expr) : goOn nested b e r = some (e, r) :=
  goOn_of_halts h.halts e

/-- A reader reads an operand of the next tighter binding and goes on. -/
theorem reader_of_tighter (h : reader nested b.tighter s = some (e, r)) :
    reader nested b s = goOn nested b e r := by
  match b with
  | ⟨0⟩ | ⟨n + 10⟩ => exact h
  | ⟨1⟩ | ⟨2⟩ | ⟨4⟩ | ⟨5⟩ | ⟨6⟩ | ⟨8⟩ | ⟨9⟩ => exact bind_of_some h
  | ⟨3⟩ =>
    refine (negated_eq_comparison ?_).trans h
    -- a comparison does not begin with the keyword of a negation
    cases hnot : keyword? "not".toList s with
    | none => rfl
    | some t =>
      obtain ⟨rfl, -⟩ := eq_append_of_keyword? hnot
      rw [reader_eq_none (primary_eq_none_of_not hnot) (by simp) (absurd · (by decide))] at h
      cases h
  | ⟨7⟩ =>
    refine (signed_eq_power ?_).trans h
    -- a power does not begin with a sign
    by_contra! hsign
    obtain ⟨c, hc, hsign⟩ := hsign
    have hprimary : primary nested s = none := by
      refine primary_eq_none fun d hd => ?_
      obtain rfl := Option.some.inj (hc.symm.trans hd)
      by_cases hneg : c = '-'
      · rw [hneg]
        rfl
      · rw [hsign hneg]
        rfl
    rw [reader_eq_none hprimary (absurd · (by decide)) (absurd · (by decide))] at h
    cases h

end Expr

end PiecewiseLinear.Script
