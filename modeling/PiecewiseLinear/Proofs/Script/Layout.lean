import PiecewiseLinear.Proofs.Script.Written

/-!
# Layout between statements

Statements are separated by nothing but layout, which may be a single blank as well as lines of
comments. What matters of it is that it is skipped, and that no expression goes on behind it when
a statement follows.

- `IsLayout`: stretches that are skipped as layout.
- `stops_of_head`: the characters in front of which readers stop.
- `stops_of_skipLayout`: readers of expressions stop in front of layout, unless a connective
  follows it.
-/

namespace PiecewiseLinear.Script

open Scan

variable {g s r : List Char}

/-- Stretches of text that are skipped as layout, whatever follows. -/
def IsLayout (g : List Char) : Prop := ∀ s, skipLayout (g ++ s) = skipLayout s

theorem skipLayout_cons {c : Char} (hc : isLayout c = true) (s : List Char) :
    skipLayout (c :: s) = skipLayout s := by
  rw [skipLayout, skipLayoutFrom, if_neg Bool.false_ne_true, if_pos hc]
  rfl

theorem isLayout_nil : IsLayout [] := fun _ => rfl

theorem isLayout_cons_iff {c : Char} (hc : isLayout c = true) : IsLayout (c :: g) ↔ IsLayout g :=
  forall_congr' fun s => by rw [List.cons_append, skipLayout_cons hc]

/-- Layout begins with a layout character or with a comment. -/
theorem IsLayout.head {c : Char} (h : IsLayout (c :: g)) : isLayout c = true ∨ c = '#' := by
  by_contra! hc
  have hskip := h []
  rw [List.append_nil, skipLayout_of_head (by simpa using hc.1) (by simpa using hc.2)] at hskip
  cases hskip

/-- Blanks are layout. -/
theorem skipLayout_skipBlanks (s : List Char) : skipLayout (skipBlanks s) = skipLayout s := by
  induction s with
  | nil => rfl
  | cons c s ih =>
    cases hc : isBlankInLine c with
    | false => rw [skipBlanks_of_head (by simpa using hc)]
    | true =>
      have hlayout : isLayout c = true := isLayout_iff.mpr (.inl hc)
      rw [skipBlanks, List.dropWhile_cons_of_pos hc, skipLayout_cons hlayout]
      exact ih

/-! ## Where readers stop -/

/-- Whether a character may begin an operator that is no word. -/
def startsOperator (c : Char) : Bool :=
  c = '(' || c = '*' || c = '/' || c = '%' || c = '+' || c = '-' || c = '=' || c = '!' ||
    c = '<' || c = '>'

/-- Readers stop in front of characters that begin no operator and of words that are no
connective. -/
theorem stops_of_head (hends : EndsLexeme r)
    (hhead : ∀ c ∈ (skipBlanks r).head?, startsOperator c = false)
    (hword : ∀ connective : Connective, keyword? connective.word.toList (skipBlanks r) = none)
    (b : Binding) : Stops b r := by
  have hne {c : Char} (hc : startsOperator c = true) : ∀ d ∈ (skipBlanks r).head?, d ≠ c := by
    rintro d hd rfl
    rw [hhead d hd] at hc
    cases hc
  have hafter {c : Char} (text : List Char) (hc : startsOperator c = true) :
      after? (c :: text) (skipBlanks r) = none := Expr.after?_eq_none (hne hc)
  have hpiece {c : Char} (text : List Char) (hc : startsOperator c = true) :
      piece (c :: text) (skipBlanks r) = none := Expr.piece_eq_none (hne hc)
  have hnotBefore {c : Char} (next : Char) (hc : startsOperator c = true) :
      pieceNotBefore [c] next (skipBlanks r) = none := by rw [pieceNotBefore, hafter [] hc]
  refine ⟨hends, fun _ => hafter (c := '(') [] rfl, fun _ => hafter (c := '*') ['*'] rfl,
    fun _ => ?_, fun _ => ?_, fun _ => ?_, fun connective _ => hword connective⟩
  · exact (orElse_of_none (bind_of_none (hnotBefore '*' rfl))).trans
      ((orElse_of_none (bind_of_none (hnotBefore '/' rfl))).trans
        (bind_of_none (hpiece (c := '%') [] rfl)))
  · exact (orElse_of_none (bind_of_none (hpiece (c := '+') [] rfl))).trans
      (bind_of_none (hpiece (c := '-') [] rfl))
  · exact (orElse_of_none (bind_of_none (hpiece (c := '=') ['='] rfl))).trans
      ((orElse_of_none (bind_of_none (hpiece (c := '!') ['='] rfl))).trans
        ((orElse_of_none (bind_of_none (hpiece (c := '<') ['='] rfl))).trans
          ((orElse_of_none (bind_of_none (hpiece (c := '>') ['='] rfl))).trans
            ((orElse_of_none (bind_of_none (hpiece (c := '<') [] rfl))).trans
              (bind_of_none (hpiece (c := '>') [] rfl))))))

/-- A text begins with a word that is no connective, or it is empty. -/
structure StartsWord (s : List Char) : Prop where
  head : ∀ c ∈ s.head?, isWordStart c = true
  no_connective : ∀ connective : Connective, keyword? connective.word.toList s = none

namespace StartsWord

theorem startsExpr (hs : StartsWord s) : ∀ c ∈ s.head?, Expr.startsExpr c = true := by
  intro c hc
  rw [Expr.startsExpr, Expr.startsPrimary, hs.head c hc, Bool.or_true, Bool.true_or, Bool.true_or]

theorem skipLayout (hs : StartsWord s) : skipLayout s = s :=
  Expr.skipLayout_of_startsExpr hs.startsExpr

theorem skipBlanks (hs : StartsWord s) : skipBlanks s = s :=
  Expr.skipBlanks_of_startsExpr hs.startsExpr

theorem startsOperator (hs : StartsWord s) : ∀ c ∈ s.head?, startsOperator c = false := by
  intro c hc
  have hstart := hs.head c hc
  by_contra hop
  rw [Bool.not_eq_false, Script.startsOperator] at hop
  simp only [Bool.or_eq_true, decide_eq_true_eq] at hop
  rcases hop with ((((((((rfl | rfl) | rfl) | rfl) | rfl) | rfl) | rfl) | rfl) | rfl) | rfl <;>
    cases hstart

end StartsWord

/-- Readers stop in front of line ends and comments. -/
theorem stops_of_layout_head {c : Char} (hc : c = '\n' ∨ c = '\r' ∨ c = '#')
    (hends : EndsLexeme r) (hblank : skipBlanks r = c :: s) (b : Binding) : Stops b r := by
  refine stops_of_head hends ?_ ?_ b
  · rw [hblank]
    rintro d ⟨⟩
    rcases hc with rfl | rfl | rfl <;> rfl
  · rw [hblank]
    rcases hc with rfl | rfl | rfl <;> rintro (_ | _) <;> rfl

theorem endsLexeme_of_layout (h : ∀ c ∈ r.head?, isLayout c = true ∨ c = '#') :
    EndsLexeme r := by
  intro c hc
  rcases h c hc with hlayout | rfl
  · rw [isLayout_iff, isBlankInLine_iff] at hlayout
    rcases hlayout with (rfl | rfl) | rfl | rfl <;> exact ⟨rfl, by decide⟩
  · exact ⟨rfl, by decide⟩

/-- Readers of expressions stop in front of layout, and where the text ends, if no connective
follows the layout. -/
theorem stops_of_skipLayout (hhead : ∀ c ∈ r.head?, isLayout c = true ∨ c = '#')
    (hs : StartsWord (skipLayout r)) (b : Binding) : Stops b r := by
  have hends := endsLexeme_of_layout hhead
  cases hblank : skipBlanks r with
  | nil =>
    refine stops_of_head hends ?_ ?_ b
    · rw [hblank]
      nofun
    · rw [hblank]
      rintro (_ | _) <;> rfl
  | cons c t =>
    have hc : isBlankInLine c = false := by
      have hdrop := List.head?_dropWhile_not isBlankInLine r
      rwa [show r.dropWhile isBlankInLine = c :: t from hblank] at hdrop
    by_cases hlayout : isLayout c = true ∨ c = '#'
    · refine stops_of_layout_head ?_ hends hblank b
      rwa [isLayout_iff, hc, or_iff_right Bool.false_ne_true, or_assoc] at hlayout
    · -- the word begins right behind the blanks
      rw [not_or, Bool.not_eq_true] at hlayout
      have hskip : skipLayout r = skipBlanks r := by
        rw [← skipLayout_skipBlanks, hblank]
        exact skipLayout_of_head (by simpa using hlayout.1) (by simpa using hlayout.2)
      rw [hskip] at hs
      exact stops_of_head hends hs.startsOperator hs.no_connective b

theorem stops_of_skipLayout_eq_nil (h : skipLayout r = []) (b : Binding) : Stops b r := by
  have hword : StartsWord (skipLayout r) := by
    rw [h]
    exact ⟨nofun, by rintro (_ | _) <;> rfl⟩
  refine stops_of_skipLayout (fun c hc => ?_) hword b
  obtain ⟨s, rfl⟩ := List.head?_eq_some_iff.mp hc
  by_contra! hhead
  rw [skipLayout_of_head (by simpa using hhead.1) (by simpa using hhead.2)] at h
  cases h

/-- In front of layout and a word readers stop, whatever the binding. -/
theorem stops_layout (hg : IsLayout g) (hne : g ≠ []) (hs : StartsWord s) (b : Binding) :
    Stops b (g ++ s) := by
  obtain ⟨c, g, rfl⟩ := List.exists_cons_of_ne_nil hne
  refine stops_of_skipLayout ?_ ?_ b
  · rintro d ⟨⟩
    exact hg.head
  · rwa [hg, hs.skipLayout]

end PiecewiseLinear.Script
