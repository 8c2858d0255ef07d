import PiecewiseLinear.Proofs.Region.Segment
import PiecewiseLinear.Region.Basic

/-!
# Sorting, joining and gaps

The sweeps that operations on regions make over their segments. Each of them is described by
the cuts that its result covers and by the order that it leaves.

- `Region.covers`: the cuts that a list of segments covers.
- `Region.InOrder`, `Region.Separated`: segments in the order of their starts, and segments
  with a gap between any two.
- `Region.inOrder_sorted`, `Region.mem_sorted`: sorting.
- `Region.separated_join`, `Region.covers_join`: joining what leaves no gap.
- `Region.separated_gapsFrom`, `Region.mem_covers_gapsFrom`: the gaps between segments.
-/

namespace PiecewiseLinear

namespace Region

/-- The cuts that a list of segments covers. -/
def covers (ss : List Segment) : Set Cut := {c | ∃ s ∈ ss, c ∈ s.cuts}

/-- Segments in the order of their starts. -/
structure InOrder (ss : List Segment) : Prop where
  wellFormed : ∀ s ∈ ss, s.WellFormed
  starts : ss.Pairwise fun s t => s.start ≤ t.start

/-- Segments in order, each apart from all that follow. -/
structure Separated (ss : List Segment) : Prop where
  wellFormed : ∀ s ∈ ss, s.WellFormed
  apart : ss.Pairwise Segment.Apart

@[simp] theorem covers_nil : covers [] = ∅ := by
  simp [covers]

@[simp] theorem covers_cons (s : Segment) (ss : List Segment) :
    covers (s :: ss) = s.cuts ∪ covers ss := by
  ext c
  simp [covers]

theorem covers_append (ss ts : List Segment) : covers (ss ++ ts) = covers ss ∪ covers ts := by
  ext c
  simp [covers, or_and_right, exists_or]

theorem mem_covers_toList {s : Option Segment} {c : Cut} :
    c ∈ covers s.toList ↔ ∃ t ∈ s, c ∈ t.cuts := by
  simp [covers]

theorem pairwise_toList (s : Option Segment) : s.toList.Pairwise Segment.Apart := by
  cases s with
  | none => exact .nil
  | some t => exact List.pairwise_singleton _ t

/-! ## Sorting -/

theorem insert_eq_orderedInsert (s : Segment) (ss : List Segment) :
    insert s ss = ss.orderedInsert (fun s t => s.startsBy t = true) s := by
  induction ss with
  | nil => rfl
  | cons t ts ih => rw [insert, List.orderedInsert_cons, ih]

/-- Sorting is insertion sort by the starts of the segments. -/
theorem sorted_eq_insertionSort (ss : List Segment) :
    sorted ss = ss.insertionSort (fun s t => s.startsBy t = true) := by
  induction ss with
  | nil => rfl
  | cons s ss ih =>
    show insert s (sorted ss) = _
    rw [List.insertionSort_cons, insert_eq_orderedInsert, ih]

@[simp] theorem mem_sorted {s : Segment} {ss : List Segment} : s ∈ sorted ss ↔ s ∈ ss := by
  rw [sorted_eq_insertionSort, List.mem_insertionSort]

theorem covers_sorted (ss : List Segment) : covers (sorted ss) = covers ss := by
  ext c
  simp [covers]

/-- Sorting segments sorts their starts in the linear order of cuts. -/
theorem map_start_sorted {ss : List Segment} (h : ∀ s ∈ ss, s.WellFormed) :
    (sorted ss).map Segment.start = (ss.map Segment.start).insertionSort (· ≤ ·) := by
  rw [sorted_eq_insertionSort]
  -- the relation that sorts is linear on segments in shape only, so the order moves to cuts
  apply List.map_insertionSort
  intro s hs t ht
  exact Segment.startsBy_iff (h s hs) (h t ht)

theorem inOrder_sorted {ss : List Segment} (h : ∀ s ∈ ss, s.WellFormed) :
    InOrder (sorted ss) := by
  constructor
  · intro s hs
    exact h s (mem_sorted.mp hs)
  · have hsorted := List.pairwise_insertionSort (· ≤ ·) (ss.map Segment.start)
    rwa [← map_start_sorted h, List.pairwise_map] at hsorted

/-! ## Joining -/

theorem InOrder.tail {s : Segment} {ss : List Segment} (h : InOrder (s :: ss)) : InOrder ss :=
  ⟨fun t ht => h.wellFormed t (List.mem_cons_of_mem s ht), h.starts.of_cons⟩

theorem InOrder.head {s : Segment} {ss : List Segment} (h : InOrder (s :: ss)) : s.WellFormed :=
  h.wellFormed s List.mem_cons_self

theorem InOrder.head_le {s t : Segment} {ss : List Segment} (h : InOrder (s :: ss))
    (ht : t ∈ ss) : s.start ≤ t.start :=
  List.rel_of_pairwise_cons h.starts ht

/-- Extending the first segment by the second one leaves the order as it is. -/
theorem InOrder.extend {s t : Segment} {ss : List Segment} (h : InOrder (s :: t :: ss)) :
    InOrder (s.extend t :: ss) := by
  constructor
  · rw [List.forall_mem_cons]
    exact ⟨h.head.extend h.tail.head, h.tail.tail.wellFormed⟩
  · rw [List.pairwise_cons]
    refine ⟨?_, h.tail.tail.starts⟩
    intro u hu
    rw [Segment.start_extend]
    exact h.head_le (List.mem_cons_of_mem t hu)

/-- Joining neighbours changes nothing about what is covered. -/
theorem covers_joinFrom {current : Segment} {ss : List Segment} (h : InOrder (current :: ss)) :
    covers (joinFrom current ss) = current.cuts ∪ covers ss := by
  induction ss generalizing current with
  | nil => rw [joinFrom, covers_cons]
  | cons s ss ih =>
    have hle : current.start ≤ s.start := h.head_le List.mem_cons_self
    rw [joinFrom]
    by_cases hmeets : current.meets s = true
    · have hunion := Segment.cuts_extend h.head h.tail.head hle hmeets
      rw [if_pos hmeets, ih h.extend, hunion, covers_cons, Set.union_assoc]
    · rw [if_neg hmeets, covers_cons, ih h.tail, covers_cons]

/-- Joining starts nowhere before the segment that it starts from. -/
theorem start_le_of_mem_joinFrom {current t : Segment} {ss : List Segment}
    (h : InOrder (current :: ss)) (ht : t ∈ joinFrom current ss) : current.start ≤ t.start := by
  induction ss generalizing current with
  | nil =>
    rw [joinFrom, List.mem_singleton] at ht
    rw [ht]
  | cons s ss ih =>
    rw [joinFrom] at ht
    by_cases hmeets : current.meets s = true
    · rw [if_pos hmeets] at ht
      rw [← Segment.start_extend current s]
      exact ih h.extend ht
    · rw [if_neg hmeets] at ht
      rcases List.mem_cons.mp ht with rfl | ht
      · exact le_rfl
      · have hle : current.start ≤ s.start := h.head_le List.mem_cons_self
        exact hle.trans (ih h.tail ht)

/-- Joining segments in order leaves segments that are apart. -/
theorem separated_joinFrom {current : Segment} {ss : List Segment}
    (h : InOrder (current :: ss)) : Separated (joinFrom current ss) := by
  induction ss generalizing current with
  | nil => exact ⟨by simpa [joinFrom] using h.head, List.pairwise_singleton _ _⟩
  | cons s ss ih =>
    rw [joinFrom]
    by_cases hmeets : current.meets s = true
    · rw [if_pos hmeets]
      exact ih h.extend
    · rw [if_neg hmeets]
      have hrest := ih h.tail
      have hgap : current.stop < s.start := by
        rwa [Segment.meets_iff h.head h.tail.head, not_le] at hmeets
      constructor
      · rw [List.forall_mem_cons]
        exact ⟨h.head, hrest.wellFormed⟩
      · rw [List.pairwise_cons]
        refine ⟨?_, hrest.apart⟩
        intro t ht
        -- `current` does not meet `s`, and joining from `s` starts nowhere before `s`
        have hstart : s.start ≤ t.start := start_le_of_mem_joinFrom h.tail ht
        rw [h.head.apart_iff (hrest.wellFormed t ht)]
        exact hgap.trans_le hstart

theorem covers_join {ss : List Segment} (h : InOrder ss) : covers (join ss) = covers ss := by
  cases ss with
  | nil => rfl
  | cons s ss => rw [join, covers_joinFrom h, covers_cons]

theorem separated_join {ss : List Segment} (h : InOrder ss) : Separated (join ss) := by
  cases ss with
  | nil => exact ⟨nofun, .nil⟩
  | cons s ss => exact separated_joinFrom h

/-- Gathering segments covers what they cover. -/
theorem covers_ofSegments {ss : List Segment} (h : ∀ s ∈ ss, s.WellFormed) :
    covers (ofSegments ss).segments = covers ss := by
  rw [ofSegments, covers_join (inOrder_sorted h), covers_sorted]

theorem separated_ofSegments {ss : List Segment} (h : ∀ s ∈ ss, s.WellFormed) :
    Separated (ofSegments ss).segments :=
  separated_join (inOrder_sorted h)

/-! ## Gaps -/

theorem Separated.tail {s : Segment} {ss : List Segment} (h : Separated (s :: ss)) :
    Separated ss :=
  ⟨fun t ht => h.wellFormed t (List.mem_cons_of_mem s ht), h.apart.of_cons⟩

theorem Separated.head {s : Segment} {ss : List Segment} (h : Separated (s :: ss)) :
    s.WellFormed :=
  h.wellFormed s List.mem_cons_self

theorem Separated.stop_lt {s t : Segment} {ss : List Segment} (h : Separated (s :: ss))
    (ht : t ∈ ss) : s.stop < t.start :=
  (h.head.apart_iff (h.tail.wellFormed t ht)).mp (List.rel_of_pairwise_cons h.apart ht)

theorem not_mem_covers_of_lt {ss : List Segment} {c : Cut} (h : ∀ s ∈ ss, c < s.start) :
    c ∉ covers ss := by
  rintro ⟨s, hs, hc⟩
  exact (h s hs).not_ge hc.1

/-- A gap ends where the segment after it starts. -/
theorem upper_flip_left (s : Segment) : Cut.upper s.lower s.left.flip = s.start := by
  rw [← Cut.lower_flip, Segment.start]
  cases s.left <;> rfl

/-- The next gap starts where the segment before it stops. -/
theorem lower_flip_right (s : Segment) : Cut.lower s.upper s.right.flip = s.stop :=
  Cut.lower_flip s.upper s.right

theorem Separated.next_le {s t : Segment} {ss : List Segment} (h : Separated (s :: ss))
    (ht : t ∈ ss) : Cut.lower s.upper s.right.flip ≤ t.start := by
  rw [lower_flip_right]
  exact (h.stop_lt ht).le

/-- Of the line after a cut, the gaps cover what the segments leave. -/
theorem mem_covers_gapsFrom {cut : Float} {edge : Edge} {ss : List Segment}
    (hcut : cut.isNaN = false) (h : Separated ss)
    (hle : ∀ s ∈ ss, Cut.lower cut edge ≤ s.start) {c : Cut} (hc : c ∈ Cut.line) :
    c ∈ covers (gapsFrom cut edge ss) ↔ Cut.lower cut edge ≤ c ∧ c ∉ covers ss := by
  induction ss generalizing cut edge with
  | nil =>
    rw [gapsFrom, mem_covers_toList,
      Segment.exists_mem_ofBounds?_of_mem_line hcut Double.isNaN_infinity hc, covers_nil]
    simp only [Cut.upper, Double.toEReal_infinity, Set.mem_empty_iff_false, not_false_eq_true]
    exact and_congr_right fun _ => iff_of_true hc.2 trivial
  | cons s ss ih =>
    have hs := h.head
    have hstart : Cut.lower cut edge ≤ s.start := hle s List.mem_cons_self
    have hrest := ih hs.upper_isNaN h.tail fun t ht => h.next_le ht
    rw [gapsFrom, covers_append, Set.mem_union, mem_covers_toList,
      Segment.exists_mem_ofBounds?_of_mem_line hcut hs.lower_isNaN hc, upper_flip_left, hrest,
      lower_flip_right, covers_cons, Set.mem_union, not_or]
    constructor
    · rintro (⟨hle, hlt⟩ | ⟨hstop, hout⟩)
      · -- in the gap before `s`, and so before all that follows `s`
        refine ⟨hle, fun hin => hlt.not_ge hin.1, not_mem_covers_of_lt ?_⟩
        intro t ht
        exact (hlt.trans hs.start_lt_stop).trans (h.stop_lt ht)
      · -- in a gap after `s`
        have hle : Cut.lower cut edge ≤ c := hstart.trans (hs.start_lt_stop.le.trans hstop)
        exact ⟨hle, fun hin => hin.2.not_ge hstop, hout⟩
    · rintro ⟨hle, hnot, hout⟩
      by_cases hlt : c < s.start
      · exact .inl ⟨hle, hlt⟩
      · have hstop : s.stop ≤ c := by
          by_contra hin
          exact hnot ⟨not_lt.mp hlt, not_le.mp hin⟩
        exact .inr ⟨hstop, hout⟩

theorem wellFormed_of_mem_gapsFrom {cut : Float} {edge : Edge} {ss : List Segment}
    {g : Segment} (hg : g ∈ gapsFrom cut edge ss) : g.WellFormed := by
  induction ss generalizing cut edge with
  | nil =>
    rw [gapsFrom, Option.mem_toList] at hg
    exact Segment.wellFormed_of_mem_ofBounds? hg
  | cons s ss ih =>
    rw [gapsFrom, List.mem_append, Option.mem_toList] at hg
    rcases hg with hg | hg
    · exact Segment.wellFormed_of_mem_ofBounds? hg
    · exact ih hg

/-- No gap starts before the cut that the gaps are counted from. -/
theorem le_start_of_mem_gapsFrom {cut : Float} {edge : Edge} {ss : List Segment}
    (h : Separated ss) (hle : ∀ s ∈ ss, Cut.lower cut edge ≤ s.start) {g : Segment}
    (hg : g ∈ gapsFrom cut edge ss) : Cut.lower cut edge ≤ g.start := by
  induction ss generalizing cut edge with
  | nil =>
    rw [gapsFrom, Option.mem_toList] at hg
    rw [Segment.start_of_mem_ofBounds? hg]
    exact Segment.le_lower_edgeAt cut edge
  | cons s ss ih =>
    rw [gapsFrom, List.mem_append, Option.mem_toList] at hg
    rcases hg with hg | hg
    · rw [Segment.start_of_mem_ofBounds? hg]
      exact Segment.le_lower_edgeAt cut edge
    · have hstart : Cut.lower cut edge ≤ s.start := hle s List.mem_cons_self
      have hstop := ih h.tail (fun t ht => h.next_le ht) hg
      rw [lower_flip_right] at hstop
      exact hstart.trans (h.head.start_lt_stop.le.trans hstop)

/-- Gaps are apart, for the segments between them are not empty. -/
theorem pairwise_gapsFrom {cut : Float} {edge : Edge} {ss : List Segment} (h : Separated ss)
    (hle : ∀ s ∈ ss, Cut.lower cut edge ≤ s.start) :
    (gapsFrom cut edge ss).Pairwise Segment.Apart := by
  induction ss generalizing cut edge with
  | nil => exact pairwise_toList _
  | cons s ss ih =>
    rw [gapsFrom, List.pairwise_append]
    refine ⟨pairwise_toList _, ih h.tail fun t ht => h.next_le ht, ?_⟩
    intro g hg g' hg'
    rw [Option.mem_toList] at hg
    rw [(Segment.wellFormed_of_mem_ofBounds? hg).apart_iff (wellFormed_of_mem_gapsFrom hg'),
      Segment.stop_of_mem_ofBounds? hg]
    calc Cut.upper s.lower (Segment.edgeAt s.lower s.left.flip)
        ≤ Cut.upper s.lower s.left.flip := Segment.upper_edgeAt_le _ _
      _ = s.start := upper_flip_left s
      _ < s.stop := h.head.start_lt_stop
      _ = Cut.lower s.upper s.right.flip := (lower_flip_right s).symm
      _ ≤ g'.start := le_start_of_mem_gapsFrom h.tail (fun t ht => h.next_le ht) hg'

theorem separated_gapsFrom {cut : Float} {edge : Edge} {ss : List Segment} (h : Separated ss)
    (hle : ∀ s ∈ ss, Cut.lower cut edge ≤ s.start) : Separated (gapsFrom cut edge ss) :=
  ⟨fun _ => wellFormed_of_mem_gapsFrom, pairwise_gapsFrom h hle⟩

end Region

end PiecewiseLinear
