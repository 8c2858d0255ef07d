import PiecewiseLinear.Proofs.Double.Real
import PiecewiseLinear.Region.Segment

/-!
# Segments between cuts

A cut splits the extended real line just before one of its points or just after it. An
endpoint with its edge is a cut, and a segment holds what lies between two cuts, so that
overlapping, touching and meeting are comparisons in one linear order.

- `Cut`, `Cut.lower`, `Cut.upper`: cuts, and the cuts that endpoints make.
- `Cut.line`: the cuts between the ends of the extended line.
- `Segment.WellFormed`: the shape of every segment that is built from endpoints.
- `Segment.Apart`: a gap between two segments in order.
- `Segment.reals`: the reals between the endpoints.
- `Segment.cuts`: the cuts between both ends, in the order of cuts. Membership of doubles
  and of reals is membership there.
- `Segment.startsBy_iff`, `Segment.meets_iff`, `Segment.cuts_extend`: the order of segments
  and their joining, in the order of cuts.
-/

namespace PiecewiseLinear

open Double (toEReal)

/-- A cut of the extended real line, just before a point (`false`) or just after it. -/
abbrev Cut := EReal ×ₗ Bool

namespace Cut

/-- The cut just before a point. -/
def before (x : EReal) : Cut := toLex (x, false)

/-- The cut just after a point. -/
def after (x : EReal) : Cut := toLex (x, true)

/-- The cuts between the ends of the extended line. -/
def line : Set Cut := Set.Ico (after ⊥) (before ⊤)

theorem before_le_before {x y : EReal} : before x ≤ before y ↔ x ≤ y := by
  simp [before, Prod.Lex.toLex_le_toLex, ← le_iff_lt_or_eq]

theorem after_le_before {x y : EReal} : after x ≤ before y ↔ x < y := by
  simp [before, after, Prod.Lex.toLex_le_toLex]

theorem before_le_after {x y : EReal} : before x ≤ after y ↔ x ≤ y := by
  simp [before, after, Prod.Lex.toLex_le_toLex, ← le_iff_lt_or_eq]

theorem after_le_after {x y : EReal} : after x ≤ after y ↔ x ≤ y := by
  simp [after, Prod.Lex.toLex_le_toLex, ← le_iff_lt_or_eq]

theorem before_lt_before {x y : EReal} : before x < before y ↔ x < y := by
  simp [before, Prod.Lex.toLex_lt_toLex]

theorem before_lt_after {x y : EReal} : before x < after y ↔ x ≤ y := by
  simp [before, after, Prod.Lex.toLex_lt_toLex, ← le_iff_lt_or_eq]

theorem after_lt_after {x y : EReal} : after x < after y ↔ x < y := by
  simp [after, Prod.Lex.toLex_lt_toLex]

theorem after_lt_before {x y : EReal} : after x < before y ↔ x < y := by
  simp [before, after, Prod.Lex.toLex_lt_toLex]

theorem before_mem_line {x : EReal} : before x ∈ line ↔ ⊥ < x ∧ x < ⊤ := by
  rw [line, Set.mem_Ico, after_le_before, before_lt_before]

/-- The cut that a lower endpoint makes: before it where it belongs to its segment. -/
noncomputable def lower (v : Float) : Edge → Cut
  | .included => before (toEReal v)
  | .excluded => after (toEReal v)

/-- The cut that an upper endpoint makes: after it where it belongs to its segment. -/
noncomputable def upper (v : Float) : Edge → Cut
  | .included => after (toEReal v)
  | .excluded => before (toEReal v)

/-- What ends at an endpoint leaves the rest to what starts there with the other edge. -/
theorem lower_flip (v : Float) (edge : Edge) : lower v edge.flip = upper v edge := by
  cases edge <;> rfl

theorem lower_le_before {v : Float} {edge : Edge} {x : EReal} :
    lower v edge ≤ before x ↔ toEReal v < x ∨ edge = .included ∧ toEReal v = x := by
  cases edge with
  | included => simp [lower, before_le_before, ← le_iff_lt_or_eq]
  | excluded => simp [lower, after_le_before]

theorem before_lt_upper {v : Float} {edge : Edge} {x : EReal} :
    before x < upper v edge ↔ x < toEReal v ∨ edge = .included ∧ x = toEReal v := by
  cases edge with
  | included => simp [upper, before_lt_after, ← le_iff_lt_or_eq]
  | excluded => simp [upper, before_lt_before]

theorem lower_lt_upper {v w : Float} {edge edge' : Edge} :
    lower v edge < upper w edge' ↔
      toEReal v < toEReal w ∨
        toEReal v = toEReal w ∧ edge = .included ∧ edge' = .included := by
  cases edge <;> cases edge' <;>
    simp [lower, upper, before_lt_before, before_lt_after, after_lt_after, after_lt_before,
      ← le_iff_lt_or_eq]

theorem upper_lt_lower {v w : Float} {edge edge' : Edge} :
    upper v edge < lower w edge' ↔
      toEReal v < toEReal w ∨
        toEReal v = toEReal w ∧ edge = .excluded ∧ edge' = .excluded := by
  cases edge <;> cases edge' <;>
    simp [lower, upper, before_lt_before, before_lt_after, after_lt_after, after_lt_before,
      ← le_iff_lt_or_eq]

theorem lower_le_lower {v w : Float} {edge edge' : Edge} :
    lower v edge ≤ lower w edge' ↔
      toEReal v < toEReal w ∨
        toEReal v = toEReal w ∧ (edge = .included ∨ edge' = .excluded) := by
  cases edge <;> cases edge' <;>
    simp [lower, before_le_before, after_le_before, before_le_after, after_le_after,
      ← le_iff_lt_or_eq]

theorem lower_le_upper {v w : Float} {edge edge' : Edge} :
    lower v edge ≤ upper w edge' ↔
      toEReal v < toEReal w ∨
        toEReal v = toEReal w ∧ (edge = .included ∨ edge' = .included) := by
  cases edge <;> cases edge' <;>
    simp [lower, upper, before_le_before, after_le_before, before_le_after, after_le_after,
      ← le_iff_lt_or_eq]

theorem upper_le_upper {v w : Float} {edge edge' : Edge} :
    upper v edge ≤ upper w edge' ↔
      toEReal v < toEReal w ∨
        toEReal v = toEReal w ∧ (edge = .excluded ∨ edge' = .included) := by
  cases edge <;> cases edge' <;>
    simp [upper, before_le_before, after_le_before, before_le_after, after_le_after,
      ← le_iff_lt_or_eq]

/-- Of two cuts at one point the later one excludes what either excludes. -/
theorem lower_both (v : Float) (edge edge' : Edge) :
    lower v (edge.both edge') = max (lower v edge) (lower v edge') := by
  have h : before (toEReal v) ≤ after (toEReal v) := before_le_after.mpr le_rfl
  cases edge <;> cases edge' <;> simp [lower, Edge.both, h]

theorem upper_both (v : Float) (edge edge' : Edge) :
    upper v (edge.both edge') = min (upper v edge) (upper v edge') := by
  have h : before (toEReal v) ≤ after (toEReal v) := before_le_after.mpr le_rfl
  cases edge <;> cases edge' <;> simp [upper, Edge.both, h]

end Cut

theorem Edge.both_eq_included {e f : Edge} :
    e.both f = .included ↔ e = .included ∧ f = .included := by
  cases e <;> cases f <;> simp [Edge.both]

namespace Segment

/-! ## The shape of segments -/

/-- The shape of a segment that is built from endpoints: its endpoints are numbers in their
one form, an infinite one is excluded, and something lies between them. -/
structure WellFormed (s : Segment) : Prop where
  lower_isNaN : s.lower.isNaN = false
  upper_isNaN : s.upper.isNaN = false
  lower_ne : s.lower ≠ -Double.zero
  upper_ne : s.upper ≠ -Double.zero
  left_of_isInf : s.lower.isInf = true → s.left = .excluded
  right_of_isInf : s.upper.isInf = true → s.right = .excluded
  nonempty : s.lower < s.upper ∨
    (s.lower == s.upper) = true ∧ s.left = .included ∧ s.right = .included

/-- A segment ends before another one starts, with a gap of at least one point. -/
def Apart (s t : Segment) : Prop :=
  s.upper < t.lower ∨ (s.upper == t.lower) = true ∧ s.right = .excluded ∧ t.left = .excluded

/-- The reals in a segment. -/
def reals (s : Segment) : Set ℝ :=
  {x | (toEReal s.lower < x ∨ s.left = .included ∧ toEReal s.lower = x) ∧
    (x < toEReal s.upper ∨ s.right = .included ∧ x = toEReal s.upper)}

/-- The cut at which a segment starts. -/
noncomputable def start (s : Segment) : Cut := Cut.lower s.lower s.left

/-- The cut at which a segment stops. -/
noncomputable def stop (s : Segment) : Cut := Cut.upper s.upper s.right

/-- The cuts with a segment around them: the point behind such a cut is in the segment. -/
def cuts (s : Segment) : Set Cut := Set.Ico s.start s.stop

theorem nonempty_iff {s : Segment} (hl : s.lower.isNaN = false) (hu : s.upper.isNaN = false) :
    (s.lower < s.upper ∨ (s.lower == s.upper) = true ∧ s.left = .included ∧ s.right = .included) ↔
      s.start < s.stop := by
  rw [start, stop, Cut.lower_lt_upper, Double.toEReal_lt_iff hl hu, Double.toEReal_eq_iff hl hu]

theorem WellFormed.start_lt_stop {s : Segment} (h : s.WellFormed) : s.start < s.stop :=
  (nonempty_iff h.lower_isNaN h.upper_isNaN).mp h.nonempty

theorem WellFormed.apart_iff {s t : Segment} (hs : s.WellFormed) (ht : t.WellFormed) :
    s.Apart t ↔ s.stop < t.start := by
  rw [Apart, stop, start, Cut.upper_lt_lower, Double.toEReal_lt_iff hs.upper_isNaN ht.lower_isNaN,
    Double.toEReal_eq_iff hs.upper_isNaN ht.lower_isNaN]

/-! ## Membership -/

theorem mem_reals_iff {s : Segment} {x : ℝ} : x ∈ s.reals ↔ Cut.before x ∈ s.cuts := by
  rw [cuts, Set.mem_Ico, start, stop, Cut.lower_le_before, Cut.before_lt_upper]
  rfl

/-- A double lies in a segment where the cut in front of it does. -/
theorem contains_iff {s : Segment} (hs : s.WellFormed) {v : Float} (hv : v.isNaN = false) :
    s.contains v = true ↔ Cut.before (toEReal v) ∈ s.cuts := by
  rw [cuts, Set.mem_Ico, start, stop, Cut.lower_le_before, Cut.before_lt_upper,
    Double.toEReal_lt_iff hs.lower_isNaN hv, Double.toEReal_eq_iff hs.lower_isNaN hv,
    Double.toEReal_lt_iff hv hs.upper_isNaN, Double.toEReal_eq_iff hv hs.upper_isNaN]
  simp [contains]

theorem not_contains_of_isNaN (s : Segment) {v : Float} (hv : v.isNaN = true) :
    s.contains v = false := by
  simp [contains, Double.not_lt_of_isNaN (.inr hv), Double.beq_of_isNaN (.inr hv)]

/-- No segment goes beyond the ends of the line. -/
theorem WellFormed.cuts_subset_line {s : Segment} (hs : s.WellFormed) : s.cuts ⊆ Cut.line := by
  refine Set.Ico_subset_Ico ?_ ?_
  · show Cut.after ⊥ ≤ Cut.lower s.lower s.left
    cases hleft : s.left with
    | excluded => exact Cut.after_le_after.mpr bot_le
    | included =>
      rw [Cut.lower, Cut.after_le_before, bot_lt_iff_ne_bot]
      intro hbot
      have hinf := (Double.isInf_iff hs.lower_isNaN).mpr (.inr hbot)
      cases hleft.symm.trans (hs.left_of_isInf hinf)
  · show Cut.upper s.upper s.right ≤ Cut.before ⊤
    cases hright : s.right with
    | excluded => exact Cut.before_le_before.mpr le_top
    | included =>
      rw [Cut.upper, Cut.after_le_before, lt_top_iff_ne_top]
      intro htop
      have hinf := (Double.isInf_iff hs.upper_isNaN).mpr (.inl htop)
      cases hright.symm.trans (hs.right_of_isInf hinf)

/-! ## Segments in order -/

theorem startsBy_iff {s t : Segment} (hs : s.WellFormed) (ht : t.WellFormed) :
    s.startsBy t = true ↔ s.start ≤ t.start := by
  rw [start, start, Cut.lower_le_lower, Double.toEReal_lt_iff hs.lower_isNaN ht.lower_isNaN,
    Double.toEReal_eq_iff hs.lower_isNaN ht.lower_isNaN]
  simp [startsBy]

theorem meets_iff {s t : Segment} (hs : s.WellFormed) (ht : t.WellFormed) :
    s.meets t = true ↔ t.start ≤ s.stop := by
  rw [start, stop, Cut.lower_le_upper, Double.toEReal_lt_iff ht.lower_isNaN hs.upper_isNaN,
    Double.toEReal_eq_iff ht.lower_isNaN hs.upper_isNaN]
  simp [meets, or_comm]

/-- Extending a segment keeps its start. -/
theorem start_extend (s t : Segment) : (s.extend t).start = s.start := by
  unfold extend
  by_cases hlt : s.upper < t.upper
  · rw [if_pos hlt]
    rfl
  · rw [if_neg hlt]
    split_ifs <;> rfl

theorem stop_le_stop_iff {s t : Segment} (hs : s.WellFormed) (ht : t.WellFormed) :
    s.stop ≤ t.stop ↔ s.upper < t.upper ∨
      (s.upper == t.upper) = true ∧ (s.right = .excluded ∨ t.right = .included) := by
  rw [stop, stop, Cut.upper_le_upper, Double.toEReal_lt_iff hs.upper_isNaN ht.upper_isNaN,
    Double.toEReal_eq_iff hs.upper_isNaN ht.upper_isNaN]

/-- Extending takes over the end of the other segment where that is later. -/
theorem extend_cases {s t : Segment} (hs : s.WellFormed) (ht : t.WellFormed) :
    (s.stop ≤ t.stop ∧ s.extend t = { s with upper := t.upper, right := t.right }) ∨
      (t.stop ≤ s.stop ∧ s.extend t = s) := by
  unfold extend
  split_ifs with hlt heq
  · have hle : s.stop ≤ t.stop := (stop_le_stop_iff hs ht).mpr (.inl hlt)
    exact .inl ⟨hle, rfl⟩
  · simp only [Bool.and_eq_true, decide_eq_true_eq] at heq
    obtain ⟨heq, hright⟩ := heq
    have hpoint := (Double.toEReal_eq_iff ht.upper_isNaN hs.upper_isNaN).mpr heq
    have hupper : t.upper = s.upper :=
      Double.eq_of_toEReal_eq ht.upper_isNaN hs.upper_isNaN ht.upper_ne hs.upper_ne hpoint
    have hle : s.stop ≤ t.stop :=
      (stop_le_stop_iff hs ht).mpr (.inr ⟨hupper ▸ heq, .inr hright⟩)
    refine .inl ⟨hle, ?_⟩
    rw [hupper, hright]
  · -- neither a later end nor an end that includes more: nothing is taken over
    refine .inr ⟨(stop_le_stop_iff ht hs).mpr ?_, rfl⟩
    rw [Bool.and_eq_true, decide_eq_true_eq] at heq
    rw [← Double.toEReal_lt_iff hs.upper_isNaN ht.upper_isNaN, not_lt] at hlt
    rcases lt_or_eq_of_le hlt with hlt | hpoint
    · exact .inl ((Double.toEReal_lt_iff ht.upper_isNaN hs.upper_isNaN).mp hlt)
    · have hbeq := (Double.toEReal_eq_iff ht.upper_isNaN hs.upper_isNaN).mp hpoint
      refine .inr ⟨hbeq, .inl ?_⟩
      cases hright : t.right with
      | excluded => rfl
      | included => exact absurd ⟨hbeq, hright⟩ heq

/-- Extending moves the end of a segment to the later of both ends. -/
theorem stop_extend {s t : Segment} (hs : s.WellFormed) (ht : t.WellFormed) :
    (s.extend t).stop = max s.stop t.stop := by
  rcases extend_cases hs ht with ⟨hle, h⟩ | ⟨hle, h⟩
  · rw [h, max_eq_right hle]
    rfl
  · rw [h, max_eq_left hle]

/-- Extending a segment gives a segment again: its ends come from the two, and it has at least what
the first one has. -/
theorem WellFormed.extend {s t : Segment} (hs : s.WellFormed) (ht : t.WellFormed) :
    (s.extend t).WellFormed := by
  have hlt : (s.extend t).start < (s.extend t).stop := by
    rw [start_extend, stop_extend hs ht]
    exact lt_max_of_lt_left hs.start_lt_stop
  rcases extend_cases hs ht with ⟨-, h⟩ | ⟨-, h⟩
  · rw [h] at hlt ⊢
    exact ⟨hs.lower_isNaN, ht.upper_isNaN, hs.lower_ne, ht.upper_ne, hs.left_of_isInf,
      ht.right_of_isInf, (nonempty_iff (s := { s with upper := t.upper, right := t.right })
        hs.lower_isNaN ht.upper_isNaN).mpr hlt⟩
  · rw [h]
    exact hs

/-- Segments that meet have their union for a segment. -/
theorem cuts_extend {s t : Segment} (hs : s.WellFormed) (ht : t.WellFormed)
    (hle : s.start ≤ t.start) (hmeets : s.meets t = true) :
    (s.extend t).cuts = s.cuts ∪ t.cuts := by
  have hstart : s.start ≤ t.stop := hle.trans ht.start_lt_stop.le
  rw [cuts, cuts, cuts, Set.Ico_union_Ico' ((meets_iff hs ht).mp hmeets) hstart,
    start_extend, stop_extend hs ht, min_eq_left hle]

end Segment

end PiecewiseLinear
