import PiecewiseLinear.Proofs.Number.Literal
import PiecewiseLinear.Script.Grammar

/-!
# Lexemes in front of a text

What is read off a lexeme that is followed by something else.

- `EndsLexeme`: texts that do not go on with a name, a number or a keyword.
- `after?_append`, `keyword?_append`, `ident?_append`: reading a lexeme gives it back and leaves
  what follows.
- `skipBlanks_of_head`, `skipLayout_of_head`: nothing is skipped in front of other characters.
-/

namespace PiecewiseLinear.Script

variable {c : Char} {s rest : List Char}

/-! ## Pieces and words -/

theorem after?_append (piece s : List Char) : after? piece (piece ++ s) = some s := by
  induction piece with
  | nil => rfl
  | cons c piece ih => rw [List.cons_append, after?, if_pos rfl, ih]

/-- A piece at the head of a text. -/
theorem eq_append_of_after? {piece : List Char} (h : after? piece s = some rest) :
    s = piece ++ rest := by
  induction piece generalizing s with
  | nil => exact Option.some.inj h
  | cons c piece ih =>
    cases s with
    | nil => cases h
    | cons d s =>
      rw [after?] at h
      split_ifs at h with hcd
      rw [hcd, ih h, List.cons_append]

theorem keyword?_append {word : List Char} (h : continuesWord rest = false) :
    keyword? word (word ++ rest) = some rest := by
  rw [keyword?, after?_append]
  simp [h]

/-- A keyword at the head of a text ends there. -/
theorem eq_append_of_keyword? {word : List Char} (h : keyword? word s = some rest) :
    s = word ++ rest ∧ continuesWord rest = false := by
  rw [keyword?] at h
  split at h
  · next r hr =>
    split_ifs at h with hword
    cases h
    exact ⟨eq_append_of_after? hr, Bool.eq_false_iff.mpr hword⟩
  · cases h

theorem continuesWord_eq_false_iff :
    continuesWord rest = false ↔ ∀ c ∈ rest.head?, isWordChar c = false := by
  cases rest <;> simp [continuesWord]

/-- The word at the head of a text is taken as a whole. -/
theorem takeWhile_isWordChar_append {word : List Char}
    (hword : ∀ c ∈ word, isWordChar c = true) (hrest : continuesWord rest = false) :
    (word ++ rest).takeWhile isWordChar = word ∧ (word ++ rest).dropWhile isWordChar = rest :=
  span_append hword (continuesWord_eq_false_iff.mp hrest)

theorem ident?_cons (c : Char) (s : List Char) :
    ident? (c :: s) =
      if isWordStart c && !keywords.contains ((c :: s).takeWhile isWordChar) then
        some (String.ofList ((c :: s).takeWhile isWordChar), (c :: s).dropWhile isWordChar)
      else none := rfl

/-- A name is read as a whole where the word ends. -/
theorem ident?_append {name : String} (hname : IsIdentifier name)
    (hrest : continuesWord rest = false) :
    ident? (name.toList ++ rest) = some (name, rest) := by
  obtain ⟨⟨c, hc, hstart⟩, hword, hkeyword⟩ := hname
  obtain ⟨htake, hdrop⟩ := takeWhile_isWordChar_append hword hrest
  obtain ⟨s, hs⟩ := List.head?_eq_some_iff.mp hc
  have hkeyword' : keywords.contains name.toList = false := by simpa using hkeyword
  have happend : name.toList ++ rest = c :: (s ++ rest) := by rw [hs, List.cons_append]
  rw [happend] at htake hdrop ⊢
  rw [ident?_cons, htake, hdrop, hstart, hkeyword', String.ofList_toList]
  rfl

/-- A text does not begin with an identifier unless its first character may begin one. -/
theorem ident?_eq_none (h : ∀ c ∈ s.head?, isWordStart c = false) : ident? s = none := by
  cases s with
  | nil => rfl
  | cons c s =>
    rw [ident?_cons, h c rfl]
    rfl

/-- A keyword is not read as a name. -/
theorem ident?_eq_none_of_keyword {word : List Char} (hmem : word ∈ keywords)
    (hword : ∀ c ∈ word, isWordChar c = true) (hrest : continuesWord rest = false) :
    ident? (word ++ rest) = none := by
  obtain ⟨htake, -⟩ := takeWhile_isWordChar_append hword hrest
  have hkeyword : keywords.contains word = true := by simpa using hmem
  generalize word ++ rest = s at htake ⊢
  cases s with
  | nil => rfl
  | cons c s => rw [ident?_cons, htake, hkeyword, Bool.not_true, Bool.and_false,
      if_neg Bool.false_ne_true]

/-! ## Separators -/

theorem isLayout_iff : isLayout c = true ↔ isBlankInLine c = true ∨ c = '\n' ∨ c = '\r' := by
  rw [isLayout, Bool.or_assoc, Bool.or_eq_true, Bool.or_eq_true, decide_eq_true_eq,
    decide_eq_true_eq]

theorem isBlankInLine_iff : isBlankInLine c = true ↔ c = ' ' ∨ c = '\t' := by
  rw [isBlankInLine, Bool.or_eq_true, decide_eq_true_eq, decide_eq_true_eq]

theorem skipBlanks_of_head (h : ∀ c ∈ s.head?, isBlankInLine c = false) : skipBlanks s = s := by
  cases s with
  | nil => rfl
  | cons c s => exact List.dropWhile_cons_of_neg (by rw [h c rfl]; exact Bool.false_ne_true)

theorem skipLayout_of_head (hlayout : ∀ c ∈ s.head?, isLayout c = false)
    (hcomment : ∀ c ∈ s.head?, c ≠ '#') : skipLayout s = s := by
  cases s with
  | nil => rfl
  | cons c s =>
    rw [skipLayout, skipLayoutFrom, if_neg Bool.false_ne_true, hlayout c rfl,
      if_neg Bool.false_ne_true, if_neg (hcomment c rfl)]

/-! ## Ends of lexemes -/

/-- A text does not go on with the lexeme in front of it: neither with a character of words nor
with a point. -/
def EndsLexeme (rest : List Char) : Prop := ∀ c ∈ rest.head?, isWordChar c = false ∧ c ≠ '.'

theorem EndsLexeme.continuesWord (h : EndsLexeme rest) : continuesWord rest = false :=
  continuesWord_eq_false_iff.mpr fun c hc => (h c hc).1

/-- Where a lexeme ends, a literal ends. -/
theorem EndsLexeme.endsLiteral (h : EndsLexeme rest) : EndsLiteral rest := by
  intro c hc
  obtain ⟨hword, hpoint⟩ := h c hc
  have hdigit : c.isDigit = false := by
    rw [isWordChar, Char.isAlphanum] at hword
    simp_all
  refine ⟨hdigit, hpoint, ?_, ?_⟩
  · rintro rfl
    cases hword
  · rintro rfl
    cases hword

end PiecewiseLinear.Script
