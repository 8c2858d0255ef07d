import Mathlib

/-!
# Texts made of parts

What is known of a text from the parts that it is put together from, and of the parts from the text.

- `span_append`, `run_append_inj`, `eq_append_of_dropWhile`: where a run of characters ends.
- `suffix_append_of_suffix`: ends of a text behind a part of it.
- `intercalate_cons`: separators stand in front of all parts but the first one.
-/

namespace PiecewiseLinear

/-! ## Runs of characters -/

section Runs

variable {p : Char → Bool} {run rest : List Char}

/-- A run of characters ends before the first character of another kind. -/
theorem span_append (hrun : ∀ c ∈ run, p c = true) (hrest : ∀ c ∈ rest.head?, p c = false) :
    (run ++ rest).takeWhile p = run ∧ (run ++ rest).dropWhile p = rest := by
  rw [List.takeWhile_append_of_pos hrun, List.dropWhile_append_of_pos hrun]
  cases rest with
  | nil => simp
  | cons c rest =>
    have hc : p c = false := hrest c rfl
    simp [hc]

/-- Two texts are the same run and the same rest if a character of another kind ends both runs. -/
theorem run_append_inj {run' rest' : List Char} {c c' : Char} (hrun : ∀ d ∈ run, p d = true)
    (hrun' : ∀ d ∈ run', p d = true) (hc : p c = false) (hc' : p c' = false)
    (h : run ++ c :: rest = run' ++ c' :: rest') : run = run' ∧ c = c' ∧ rest = rest' := by
  have hhead : ∀ d ∈ (c :: rest).head?, p d = false := by simpa using hc
  have hhead' : ∀ d ∈ (c' :: rest').head?, p d = false := by simpa using hc'
  have hspan := span_append hrun hhead
  have hspan' := span_append hrun' hhead'
  rw [h] at hspan
  exact ⟨hspan.1.symm.trans hspan'.1, List.cons_eq_cons.mp (hspan.2.symm.trans hspan'.2)⟩

/-- The run in front of the first character of another kind. -/
theorem eq_append_of_dropWhile {s : List Char} {c : Char} (h : s.dropWhile p = c :: rest) :
    ∃ run, s = run ++ c :: rest ∧ (∀ d ∈ run, p d = true) ∧ p c = false := by
  refine ⟨s.takeWhile p, ?_, fun d => List.mem_takeWhile_imp, ?_⟩
  · rw [← h, List.takeWhile_append_dropWhile]
  · have hhead := List.head?_dropWhile_not p s
    rwa [h] at hhead

end Runs

/-! ## Ends of texts -/

/-- Behind something that was read an end of the rest is a shorter end. -/
theorem suffix_append_of_suffix {run rest r : List Char} (hne : run ≠ []) (h : r <:+ rest) :
    r <:+ run ++ rest ∧ r.length < (run ++ rest).length := by
  refine ⟨h.trans (List.suffix_append run rest), ?_⟩
  have hpos := List.length_pos_of_ne_nil hne
  have hle := h.length_le
  rw [List.length_append]
  omega

/-! ## Lists of parts -/

theorem length_le_flatMap {ι : Type} {f : ι → List Char} {items : List ι} {i : ι}
    (h : i ∈ items) : (f i).length ≤ (items.flatMap f).length := by
  rw [List.flatMap_def]
  exact (List.sublist_flatten_of_mem (List.mem_map_of_mem h)).length_le

theorem intercalate_cons {α : Type} (sep x : List α) (xs : List (List α)) :
    sep.intercalate (x :: xs) = x ++ xs.flatMap (sep ++ ·) := by
  induction xs generalizing x with
  | nil => simp
  | cons y ys ih => rw [List.intercalate_cons_cons, ih, List.flatMap_cons]; simp

end PiecewiseLinear
