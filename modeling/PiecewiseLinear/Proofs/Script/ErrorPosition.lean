import PiecewiseLinear.Proofs.Script.Remainder
import PiecewiseLinear.Proofs.Text.Position

/-!
# Positions of errors

An error is told in front of an end of the text: where reading stopped or, behind a function that
was read, at the first character that is no blank.

- `complete_eq_error`: what follows a function and is not blank.
- `Function.parse_eq_error`: the two kinds of errors.
- `Function.position_of_parse_error`: the positions of errors.
-/

namespace PiecewiseLinear.Script

variable {source : String} {e : ParseError}

/-- Trailing input begins at the first character behind the result that is no white space. -/
theorem complete_eq_error {α : Type} {text rest : List Char} {result : α}
    (h : complete text result rest = .error e) :
    ∃ gap c junk, rest = gap ++ c :: junk ∧ (∀ d ∈ gap, isBlank d = true) ∧ isBlank c = false ∧
      e = ⟨.trailingInput, .ofRest text (c :: junk)⟩ := by
  unfold complete at h
  split at h
  · cases h
  · next hne =>
    cases hjunk : rest.dropWhile isBlank with
    | nil => exact absurd hjunk hne
    | cons c junk =>
      obtain ⟨gap, hrest, hgap, hc⟩ := eq_append_of_dropWhile hjunk
      cases h
      exact ⟨gap, c, junk, hrest, hgap, hc, by rw [hjunk]⟩

namespace Function

/-- Reading a function fails where it stops, or something other than blanks follows. -/
theorem parse_eq_error (h : Function.parse source = .error e) :
    (∃ failure stop, function source.toList = .error failure stop ∧
      e = ⟨.invalid failure.expected, .ofRest source.toList stop⟩) ∨
    ∃ f gap c junk, function source.toList = .ok f (gap ++ c :: junk) ∧
      (∀ d ∈ gap, isBlank d = true) ∧ isBlank c = false ∧
      e = ⟨.trailingInput, .ofRest source.toList (c :: junk)⟩ := by
  unfold Function.parse at h
  dsimp only at h
  split at h
  · next f rest hf =>
    obtain ⟨gap, c, junk, rfl, hgap, hc, rfl⟩ := complete_eq_error h
    exact .inr ⟨f, gap, c, junk, hf, hgap, hc, rfl⟩
  · next failure stop hf =>
    cases h
    exact .inl ⟨failure, stop, hf, rfl⟩

/-- **Positions of errors are positions in the text.** The text has a part in front of the position
and a part behind it. Its offset is between two characters of the text, its line and its column
count the line feeds in front of it and the characters behind the last of these. Either reading a
function stopped there, or a function was read, only blanks follow it, and the position is that of a
character which is no blank. -/
theorem position_of_parse_error (h : Function.parse source = .error e) :
    e.position.offset ≤ source.utf8ByteSize ∧
      String.Pos.Raw.IsValid source ⟨e.position.offset⟩ ∧
      ∃ consumed rest, e.position.Splits source consumed rest ∧
        (e.fault ≠ .trailingInput →
          ∃ failure, function source.toList = .error failure rest) ∧
        (e.fault = .trailingInput → e.position.offset < source.utf8ByteSize ∧
          ∃ f read gap c junk, function source.toList = .ok f (gap ++ c :: junk) ∧
            consumed = read ++ gap ∧ rest = c :: junk ∧
            (∀ d ∈ gap, isBlank d = true) ∧ isBlank c = false) := by
  obtain ⟨failure, stop, hf, rfl⟩ | ⟨f, gap, c, junk, hf, hgap, hc, rfl⟩ := parse_eq_error h
  · obtain ⟨consumed, hconsumed⟩ := takes_function.suffix_of_error hf
    have hsplits := Position.splits_ofRest hconsumed.symm
    exact ⟨hsplits.offset_le, hsplits.isValid, consumed, stop, hsplits, fun _ => ⟨failure, hf⟩,
      nofun⟩
  · obtain ⟨read, hread⟩ := takes_function.suffix_of_ok hf
    rw [← List.append_assoc] at hread
    have hsplits := Position.splits_ofRest hread.symm
    have hlt := hsplits.offset_lt (List.cons_ne_nil c junk)
    exact ⟨hsplits.offset_le, hsplits.isValid, read ++ gap, c :: junk, hsplits,
      fun hfault => absurd rfl hfault,
      fun _ => ⟨hlt, f, read, gap, c, junk, hf, rfl, rfl, hgap, hc⟩⟩

/-- Behind a comment with a wide character and behind blanks of two bytes each. -/
theorem position_of_parse_error_wide :
    let source := "# π\ndef f(x): return x\u00a0\n\u00a0junk"
    ∃ e, Function.parse source = .error e ∧ e.message =
        "unexpected trailing input (line 3, column 2, offset 28)" ∧
      String.Pos.Raw.IsValid source ⟨28⟩ ∧ 28 < source.utf8ByteSize := by
  intro source
  have herror : (Function.parse source).map (fun _ => ()) =
      .error ⟨.trailingInput, ⟨28, 3, 2⟩⟩ := by decide +kernel
  cases h : Function.parse source with
  | ok f =>
    rw [h] at herror
    cases herror
  | error e =>
    rw [h] at herror
    cases herror
    obtain ⟨-, hvalid, consumed, rest, -, -, htrailing⟩ := position_of_parse_error h
    exact ⟨_, rfl, by decide +kernel, hvalid, (htrailing rfl).1⟩

end Function

end PiecewiseLinear.Script
