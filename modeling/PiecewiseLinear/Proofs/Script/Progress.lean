import PiecewiseLinear.Proofs.Script.Lexeme
import PiecewiseLinear.Script.ExprParser

/-!
# Progress of readers

Every reader of expressions takes at least a character off the head of its text. Reading the
same thing for as long as it is there therefore ends because it is not there any more, and never
because of the bound on the count.

- `Scan.Keeps`, `Scan.Takes`: what is left is an end of the text, perhaps or surely a shorter one.
- `Scan.many_of_some`, `Scan.many_of_none`: repeated reading, one step at a time.
- `Expr.takes_scanAt`: the readers of expressions.
-/

namespace PiecewiseLinear.Script

namespace Scan

variable {α β : Type} {p q : Scan α} {f : α → Scan β} {s r : List Char} {a : α}

/-! ## One step at a time -/

theorem bind_of_some (h : p s = some (a, r)) : (p >>= f) s = f a r := by
  show (p s).bind (fun x => f x.1 x.2) = _
  rw [h]
  rfl

theorem bind_of_none (h : p s = none) : (p >>= f) s = none := by
  show (p s).bind (fun x => f x.1 x.2) = _
  rw [h]
  rfl

theorem bind_eq_some {b : β} {t : List Char} (h : (p >>= f) s = some (b, t)) :
    ∃ a r, p s = some (a, r) ∧ f a r = some (b, t) := by
  cases hp : p s with
  | none => cases (bind_of_none hp).symm.trans h
  | some x => exact ⟨x.1, x.2, rfl, (bind_of_some hp).symm.trans h⟩

theorem orElse_of_some {x : α × List Char} (h : p s = some x) : (p <|> q) s = some x := by
  show (p s <|> q s) = _
  rw [h]
  rfl

theorem orElse_of_none (h : p s = none) : (p <|> q) s = q s := by
  show (p s <|> q s) = _
  rw [h]
  rfl

theorem orElse_eq_some {x : α × List Char} (h : (p <|> q) s = some x) :
    p s = some x ∨ q s = some x := by
  cases hp : p s with
  | none => exact .inr ((orElse_of_none hp).symm.trans h)
  | some y => exact .inl ((orElse_of_some hp).symm.trans h)

theorem optional_of_some (h : p s = some (a, r)) : Scan.optional p s = some (some a, r) := by
  rw [Scan.optional, h]

theorem optional_of_none (h : p s = none) : Scan.optional p s = some (none, s) := by
  rw [Scan.optional, h]

/-! ## What is left -/

/-- What is left is an end of the text. -/
def Keeps (p : Scan α) : Prop := ∀ ⦃s a r⦄, p s = some (a, r) → r <:+ s

/-- What is left is an end of the text, and a shorter one. -/
def Takes (p : Scan α) : Prop := ∀ ⦃s a r⦄, p s = some (a, r) → r <:+ s ∧ r.length < s.length

theorem Takes.keeps (h : Takes p) : Keeps p := fun _ _ _ hp => (h hp).1

theorem keeps_pure (a : α) : Keeps (pure a : Scan α) := by
  intro s b r h
  cases h
  exact List.suffix_rfl

theorem Keeps.bind (hp : Keeps p) (hf : ∀ a, Keeps (f a)) : Keeps (p >>= f) := by
  intro s b r h
  obtain ⟨a, t, ha, hb⟩ := bind_eq_some h
  exact (hf a hb).trans (hp ha)

theorem Takes.bind (hp : Takes p) (hf : ∀ a, Keeps (f a)) : Takes (p >>= f) := by
  intro s b r h
  obtain ⟨a, t, ha, hb⟩ := bind_eq_some h
  obtain ⟨hsuffix, hlt⟩ := hp ha
  exact ⟨(hf a hb).trans hsuffix, (hf a hb).length_le.trans_lt hlt⟩

theorem Keeps.bind_takes (hp : Keeps p) (hf : ∀ a, Takes (f a)) : Takes (p >>= f) := by
  intro s b r h
  obtain ⟨a, t, ha, hb⟩ := bind_eq_some h
  obtain ⟨hsuffix, hlt⟩ := hf a hb
  exact ⟨hsuffix.trans (hp ha), hlt.trans_le (hp ha).length_le⟩

theorem Keeps.orElse (hp : Keeps p) (hq : Keeps q) : Keeps (p <|> q) :=
  fun _ _ _ h => (orElse_eq_some h).elim (@hp _ _ _) (@hq _ _ _)

theorem Takes.orElse (hp : Takes p) (hq : Takes q) : Takes (p <|> q) :=
  fun _ _ _ h => (orElse_eq_some h).elim (@hp _ _ _) (@hq _ _ _)

/-- What may be missing keeps an end of the text. -/
theorem Keeps.optional (hp : Keeps p) : Keeps (Scan.optional p) := by
  intro s a r h
  rw [Scan.optional] at h
  split at h
  · next hsome =>
    cases h
    exact hp hsome
  · cases h
    exact List.suffix_rfl

/-! ## Lexemes -/

theorem keeps_blanks : Keeps blanks := by
  intro s a r h
  cases h
  exact List.dropWhile_suffix _

/-- What follows layout is an end of the text. -/
theorem skipLayoutFrom_suffix (inComment : Bool) (s : List Char) :
    skipLayoutFrom inComment s <:+ s := by
  induction s generalizing inComment with
  | nil => exact List.suffix_rfl
  | cons c s ih =>
    rw [skipLayoutFrom]
    split_ifs
    · exact (ih _).trans (List.suffix_cons c s)
    · exact (ih _).trans (List.suffix_cons c s)
    · exact (ih _).trans (List.suffix_cons c s)
    · exact List.suffix_rfl

theorem keeps_layout : Keeps layout := by
  intro s a r h
  cases h
  exact skipLayoutFrom_suffix false s

theorem takes_piece {text : List Char} (hne : text ≠ []) : Takes (piece text) := by
  intro s a r h
  obtain ⟨rest, hrest, heq⟩ := Option.map_eq_some_iff.mp h
  cases heq
  rw [eq_append_of_after? hrest]
  exact suffix_append_of_suffix hne List.suffix_rfl

theorem takes_pieceNotBefore {text : List Char} (hne : text ≠ []) (next : Char) :
    Takes (pieceNotBefore text next) := by
  intro s a r h
  unfold pieceNotBefore at h
  split at h
  · next rest hrest =>
    split_ifs at h
    cases h
    rw [eq_append_of_after? hrest]
    exact suffix_append_of_suffix hne List.suffix_rfl
  · cases h

theorem takes_keyword {word : List Char} (hne : word ≠ []) : Takes (keyword word) := by
  intro s a r h
  obtain ⟨rest, hrest, heq⟩ := Option.map_eq_some_iff.mp h
  cases heq
  rw [(eq_append_of_keyword? hrest).1]
  exact suffix_append_of_suffix hne List.suffix_rfl

/-! ## Repetitions -/

/-- Repeating leaves an end of the text. -/
theorem upTo_suffix (hp : Keeps p) (count : Nat) (s : List Char) : (upTo p count s).2 <:+ s := by
  induction count generalizing s with
  | zero => exact List.suffix_rfl
  | succ count ih =>
    rw [upTo]
    split
    · next hsome => exact (ih _).trans (hp hsome)
    · exact List.suffix_rfl

theorem Keeps.many (hp : Keeps p) : Keeps (many p) := by
  intro s a r h
  have hrest : (upTo p s.length s).2 = r := congrArg Prod.snd (Option.some.inj h)
  rw [← hrest]
  exact upTo_suffix hp _ s

/-- At the end of the text nothing more is read that takes a character. -/
theorem upTo_nil (hp : Takes p) (count : Nat) : upTo p count [] = ([], []) := by
  cases count with
  | zero => rfl
  | succ count =>
    cases h : p [] with
    | none => rw [upTo, h]
    | some x => exact absurd (hp h).2 (Nat.not_lt_zero _)

/-- Two counts that cover the text are equally good. -/
theorem upTo_congr (hp : Takes p) {count count' : Nat} (h : s.length ≤ count)
    (h' : s.length ≤ count') : upTo p count s = upTo p count' s := by
  induction count generalizing count' s with
  | zero =>
    obtain rfl := List.length_eq_zero_iff.mp (Nat.le_zero.mp h)
    rw [upTo_nil hp, upTo_nil hp]
  | succ count ih =>
    cases count' with
    | zero =>
      obtain rfl := List.length_eq_zero_iff.mp (Nat.le_zero.mp h')
      rw [upTo_nil hp, upTo_nil hp]
    | succ count' =>
      rw [upTo, upTo]
      split
      · next hsome =>
        have hlt := (hp hsome).2
        rw [ih (by omega) (by omega : _ ≤ count')]
      · rfl

theorem many_of_none (h : p s = none) : many p s = some ([], s) := by
  cases s <;> simp [many, upTo, h]

/-- What is there once more is read first. -/
theorem many_of_some (hp : Takes p) (h : p s = some (a, r)) :
    many p s = (many p r).map fun (more, t) => (a :: more, t) := by
  have hlt := (hp h).2
  obtain ⟨count, hcount⟩ := Nat.exists_eq_add_one_of_ne_zero (Nat.ne_zero_of_lt hlt)
  rw [many, many, hcount, upTo, h]
  dsimp only [Option.map_some]
  -- the count that is left still covers the text that is left
  rw [upTo_congr hp (by omega : r.length ≤ count) le_rfl]

/-- Items are read one after the other where each of them ends in front of the next one and in
front of what follows the last one. -/
theorem many_flatMap {ι : Type} {text : ι → List Char} {value : ι → α}
    {ends : List Char → Prop} {items : List ι} (htakes : Takes p)
    (hitem : ∀ i ∈ items, ∀ rest, ends rest → p (text i ++ rest) = some (value i, rest))
    (hnext : ∀ i ∈ items, ∀ rest, ends (text i ++ rest)) (hends : ends r) (hnone : p r = none) :
    many p (items.flatMap text ++ r) = some (items.map value, r) := by
  induction items with
  | nil => exact many_of_none hnone
  | cons i items ih =>
    have hitems := ih (fun j hj => hitem j (List.mem_cons_of_mem i hj))
      fun j hj => hnext j (List.mem_cons_of_mem i hj)
    -- behind the item stands the next one, or what follows them all
    have hrest : ends (items.flatMap text ++ r) := by
      cases items with
      | nil => exact hends
      | cons j items =>
        rw [List.flatMap_cons, List.append_assoc]
        exact hnext j (by simp) _
    rw [List.flatMap_cons, List.append_assoc,
      many_of_some htakes (hitem i List.mem_cons_self _ hrest), hitems]
    rfl

end Scan

namespace Expr

open Scan

/-! ## Readers of expressions -/

theorem isWordChar_of_isWordStart {c : Char} (h : isWordStart c = true) : isWordChar c = true := by
  unfold isWordStart at h
  unfold isWordChar Char.isAlphanum
  rw [Bool.or_right_comm, h, Bool.true_or]

/-- A name takes a character. -/
theorem takes_name? : Takes name? := by
  intro s a r h
  obtain ⟨⟨name, rest⟩, hrest, heq⟩ := Option.map_eq_some_iff.mp h
  cases heq
  cases s with
  | nil => cases hrest
  | cons c s =>
    rw [ident?_cons] at hrest
    split_ifs at hrest with hstart
    rw [Bool.and_eq_true] at hstart
    cases hrest
    rw [List.dropWhile_cons_of_pos (isWordChar_of_isWordStart hstart.1)]
    have hsuffix := List.dropWhile_suffix isWordChar (l := s)
    exact ⟨hsuffix.trans (List.suffix_cons c s), Nat.lt_succ_of_le hsuffix.length_le⟩

theorem eq_append_of_scanDigits {s digits r : List Char}
    (h : Decimal.scanDigits s = (digits, r)) : s = digits ++ r := by
  cases h
  exact List.takeWhile_append_dropWhile.symm

/-- What follows an exponent is an end of the text. -/
theorem scanExponent_suffix (s : List Char) : (Decimal.scanExponent s).2 <:+ s := by
  unfold Decimal.scanExponent
  split
  · exact List.suffix_rfl
  · next e afterE =>
    split
    · dsimp only
      split
      · exact List.suffix_rfl
      · next digits rest _ hdigits =>
        -- the digits may stand behind a sign
        have hrest := eq_append_of_scanDigits hdigits
        show rest <:+ e :: afterE
        split at hrest
        · exact ⟨e :: '+' :: digits, congrArg (e :: '+' :: ·) hrest.symm⟩
        · exact ⟨e :: '-' :: digits, congrArg (e :: '-' :: ·) hrest.symm⟩
        · exact ⟨e :: digits, congrArg (e :: ·) hrest.symm⟩
    · exact List.suffix_rfl

/-- A number takes a character: a digit or the point. -/
theorem takes_number? : Takes number? := by
  intro s a r h
  obtain ⟨⟨d, rest⟩, hrest, heq⟩ := Option.map_eq_some_iff.mp h
  cases heq
  unfold Decimal.scan at hrest
  split at hrest
  · next afterPoint hpoint =>
    split at hrest
    · cases hrest
    · next fraction rest _ hfraction =>
      cases hrest
      rw [eq_append_of_scanDigits hpoint, eq_append_of_scanDigits hfraction, List.nil_append,
        ← List.cons_append]
      exact suffix_append_of_suffix (List.cons_ne_nil '.' fraction) (scanExponent_suffix rest)
  · cases hrest
  · next whole afterPoint hne hwhole =>
    cases hrest
    rw [eq_append_of_scanDigits hwhole]
    refine suffix_append_of_suffix hne (.trans (scanExponent_suffix _) ?_)
    exact (List.dropWhile_suffix _).trans (List.suffix_cons _ _)
  · next whole rest hne _ hwhole =>
    cases hrest
    rw [eq_append_of_scanDigits hwhole]
    exact suffix_append_of_suffix hne (scanExponent_suffix _)

variable {nested : Nested}

theorem takes_parenthesized (h : ∀ entry, Takes (nested entry)) :
    Takes (parenthesized nested) :=
  (takes_piece (by decide)).bind fun _ => keeps_layout.bind fun _ => (h _).keeps.bind fun _ =>
    keeps_layout.bind fun _ => (takes_piece (by decide)).keeps.bind fun _ => keeps_pure _

theorem takes_primary (h : ∀ entry, Takes (nested entry)) : Takes (primary nested) :=
  (takes_parenthesized h).orElse (takes_number?.orElse takes_name?)

/-- A further argument behind a comma. -/
def furtherArgument (nested : Nested) : Scan Expr := do
  blanks; piece ",".toList; layout; nested .disjunction

theorem takes_furtherArgument (h : ∀ entry, Takes (nested entry)) :
    Takes (furtherArgument nested) :=
  keeps_blanks.bind_takes fun _ => (takes_piece (by decide)).bind fun _ =>
    keeps_layout.bind fun _ => (h _).keeps

theorem takes_someArguments (h : ∀ entry, Takes (nested entry)) : Takes (someArguments nested) :=
  (h _).bind fun _ => (takes_furtherArgument h).keeps.many.bind fun _ =>
    (keeps_blanks.bind fun _ => (takes_piece (by decide)).keeps).optional.bind fun _ =>
      keeps_pure _

theorem takes_callArguments (h : ∀ entry, Takes (nested entry)) : Takes (callArguments nested) :=
  (takes_piece (by decide)).bind fun _ => keeps_layout.bind fun _ =>
    ((takes_someArguments h).keeps.orElse (keeps_pure _)).bind fun _ => keeps_layout.bind fun _ =>
      (takes_piece (by decide)).keeps.bind fun _ => keeps_pure _

/-- A further call of what stands in front. -/
def furtherCall (nested : Nested) : Scan (List Expr) := do blanks; callArguments nested

theorem takes_furtherCall (h : ∀ entry, Takes (nested entry)) : Takes (furtherCall nested) :=
  keeps_blanks.bind_takes fun _ => takes_callArguments h

theorem takes_called (h : ∀ entry, Takes (nested entry)) : Takes (called nested) :=
  (takes_primary h).bind fun _ => (takes_furtherCall h).keeps.many.bind fun _ => keeps_pure _

/-- An exponent behind its operator. -/
def exponent (nested : Nested) : Scan Expr := do
  blanks; piece "**".toList; blanks; nested .signed

theorem takes_exponent (h : ∀ entry, Takes (nested entry)) : Takes (exponent nested) :=
  keeps_blanks.bind_takes fun _ => (takes_piece (by decide)).bind fun _ =>
    keeps_blanks.bind fun _ => (h _).keeps

theorem takes_power (h : ∀ entry, Takes (nested entry)) : Takes (power nested) :=
  (takes_called h).bind fun _ => (takes_exponent h).keeps.optional.bind fun _ => keeps_pure _

theorem takes_signed (h : ∀ entry, Takes (nested entry)) : Takes (signed nested) := by
  refine .orElse ?_ (.orElse ?_ (takes_power h)) <;>
  exact (takes_piece (by decide)).bind fun _ => keeps_blanks.bind fun _ =>
    (h _).keeps.bind fun _ => keeps_pure _

/-- An operator with its right operand. -/
def link {α : Type} (op : Scan α) (operand : Scan Expr) : Scan (α × Expr) := do
  blanks
  let op ← op
  blanks
  return (op, ← operand)

theorem takes_link {α : Type} {op : Scan α} {operand : Scan Expr} (hop : Takes op)
    (h : Takes operand) : Takes (link op operand) :=
  keeps_blanks.bind_takes fun _ => hop.bind fun _ => keeps_blanks.bind fun _ =>
    h.keeps.bind fun _ => keeps_pure _

theorem takes_productOp : Takes productOp := by
  refine .orElse ?_ (.orElse ?_ ?_)
  · exact (takes_pieceNotBefore (by decide) _).bind fun _ => keeps_pure _
  · exact (takes_pieceNotBefore (by decide) _).bind fun _ => keeps_pure _
  · exact (takes_piece (by decide)).bind fun _ => keeps_pure _

theorem takes_product (h : ∀ entry, Takes (nested entry)) : Takes (product nested) :=
  (takes_signed h).bind fun _ => (takes_link takes_productOp (takes_signed h)).keeps.many.bind
    fun _ => keeps_pure _

theorem takes_sumOp : Takes sumOp := by
  refine .orElse ?_ ?_ <;> exact (takes_piece (by decide)).bind fun _ => keeps_pure _

theorem takes_sum (h : ∀ entry, Takes (nested entry)) : Takes (sum nested) :=
  (takes_product h).bind fun _ => (takes_link takes_sumOp (takes_product h)).keeps.many.bind
    fun _ => keeps_pure _

theorem takes_comparator : Takes comparator := by
  refine .orElse ?_ (.orElse ?_ (.orElse ?_ (.orElse ?_ (.orElse ?_ ?_)))) <;>
  exact (takes_piece (by decide)).bind fun _ => keeps_pure _

theorem takes_comparison (h : ∀ entry, Takes (nested entry)) : Takes (comparison nested) :=
  (takes_sum h).bind fun _ => (takes_link takes_comparator (takes_sum h)).keeps.many.bind
    fun _ => keeps_pure _

theorem takes_negated (h : ∀ entry, Takes (nested entry)) : Takes (negated nested) := by
  refine .orElse ?_ (takes_comparison h)
  exact (takes_keyword (by decide)).bind fun _ => keeps_blanks.bind fun _ =>
    (h _).keeps.bind fun _ => keeps_pure _

/-- A further operand behind a connective. -/
def furtherOperand (connective : Connective) (operand : Scan Expr) : Scan Expr := do
  blanks; keyword connective.word.toList; blanks; operand

theorem takes_furtherOperand (connective : Connective) {operand : Scan Expr} (h : Takes operand) :
    Takes (furtherOperand connective operand) :=
  keeps_blanks.bind_takes fun _ => (takes_keyword (by cases connective <;> decide)).bind fun _ =>
    keeps_blanks.bind fun _ => h.keeps

theorem takes_conjunction (h : ∀ entry, Takes (nested entry)) : Takes (conjunction nested) :=
  (takes_negated h).bind fun _ => (takes_furtherOperand .and (takes_negated h)).keeps.many.bind
    fun _ => keeps_pure _

theorem takes_disjunction (h : ∀ entry, Takes (nested entry)) : Takes (disjunction nested) :=
  (takes_conjunction h).bind fun _ =>
    (takes_furtherOperand .or (takes_conjunction h)).keeps.many.bind fun _ => keeps_pure _

/-- **Progress.** Every reader of expressions takes at least a character. -/
theorem takes_scanAt (depth : Nat) (entry : Entry) : Takes (scanAt depth entry) := by
  induction depth generalizing entry with
  | zero => exact nofun
  | succ depth ih =>
    cases entry with
    | disjunction => exact takes_disjunction ih
    | negated => exact takes_negated ih
    | signed => exact takes_signed ih

end Expr

end PiecewiseLinear.Script
