import Mathlib
import PiecewiseLinear.Text.Basic

/-!
# What a position says

The place right after a stretch of text, told from the stretch as a whole, and what it says of the
text that the stretch begins.

- `Position.offset_after`, `Position.line_after`, `Position.column_after`: bytes, line feeds and
  characters of the stretch.
- `Position.Splits`: a position between two parts of a text.
- `Position.Splits.isValid`: a position is never within a character.
-/

namespace PiecewiseLinear.Position

theorem after_append_singleton (consumed : List Char) (c : Char) :
    after (consumed ++ [c]) = (after consumed).advance c := by
  rw [after, List.foldl_append]
  rfl

theorem offset_advance (p : Position) (c : Char) :
    (p.advance c).offset = p.offset + c.utf8Size := by
  rw [advance]
  split_ifs <;> rfl

theorem offset_after (consumed : List Char) :
    (after consumed).offset = (String.ofList consumed).utf8ByteSize := by
  induction consumed using List.reverseRecOn with
  | nil => rfl
  | append_singleton consumed c ih =>
    rw [after_append_singleton, offset_advance, ih, String.ofList_append,
      String.utf8ByteSize_append, ← String.singleton_eq_ofList, String.utf8ByteSize_singleton]

/-- The line counts the line feeds so far. -/
theorem line_after (consumed : List Char) : (after consumed).line = 1 + consumed.count '\n' := by
  induction consumed using List.reverseRecOn with
  | nil => rfl
  | append_singleton consumed c ih =>
    rw [after_append_singleton, advance, List.count_append, List.count_singleton]
    by_cases hc : c = '\n'
    · simp [hc, ih, Nat.add_assoc]
    · simp [hc, ih]

/-- The column counts the characters since the last line feed. -/
theorem column_after (consumed : List Char) :
    (after consumed).column = 1 + (consumed.rtakeWhile (· ≠ '\n')).length := by
  induction consumed using List.reverseRecOn with
  | nil => rfl
  | append_singleton consumed c ih =>
    rw [after_append_singleton, advance]
    by_cases hc : c = '\n'
    · rw [if_pos hc, List.rtakeWhile_concat_neg _ _ _ (by simpa using hc)]
      rfl
    · rw [if_neg hc, List.rtakeWhile_concat_pos _ _ _ (by simpa using hc), List.length_append, ih]
      rfl

theorem ofRest_append (consumed rest : List Char) :
    ofRest (consumed ++ rest) rest = after consumed := by
  rw [ofRest, List.length_append, Nat.add_sub_cancel, List.take_left]

/-- The position stands between two parts of a text. Its offset is counted in bytes, its line in
line feeds and its column in characters behind the last one of these. -/
structure Splits (p : Position) (text : String) (consumed rest : List Char) : Prop where
  parts : text.toList = consumed ++ rest
  offset : p.offset = (String.ofList consumed).utf8ByteSize
  line : p.line = 1 + consumed.count '\n'
  column : p.column = 1 + (consumed.rtakeWhile (· ≠ '\n')).length

theorem splits_ofRest {text : String} {consumed rest : List Char}
    (h : text.toList = consumed ++ rest) : (ofRest text.toList rest).Splits text consumed rest := by
  rw [h, ofRest_append]
  exact ⟨h, offset_after _, line_after _, column_after _⟩

namespace Splits

variable {p : Position} {text : String} {consumed rest : List Char}

theorem eq_append (h : p.Splits text consumed rest) :
    text = String.ofList consumed ++ String.ofList rest := by
  rw [← String.ofList_append, ← h.parts, String.ofList_toList]

theorem isValid (h : p.Splits text consumed rest) : String.Pos.Raw.IsValid text ⟨p.offset⟩ := by
  refine String.Pos.Raw.isValid_iff_exists_append.mpr ⟨_, _, h.eq_append, ?_⟩
  rw [h.offset]
  rfl

theorem offset_le (h : p.Splits text consumed rest) : p.offset ≤ text.utf8ByteSize :=
  h.isValid.le_rawEndPos

/-- In front of a character a position is within the text. -/
theorem offset_lt (h : p.Splits text consumed rest) (hne : rest ≠ []) :
    p.offset < text.utf8ByteSize := by
  have hsize : (String.ofList rest).utf8ByteSize ≠ 0 :=
    mt String.utf8ByteSize_eq_zero_iff.mp (mt String.ofList_eq_empty_iff.mp hne)
  rw [h.offset, h.eq_append, String.utf8ByteSize_append]
  exact Nat.lt_add_of_pos_right (Nat.pos_of_ne_zero hsize)

end Splits

end PiecewiseLinear.Position
