import PiecewiseLinear.Proofs.Region.Cut

/-!
# Building and intersecting segments

- `Segment.ofBounds?_eq_some_iff`: which endpoints make a segment, and which one it is.
- `Segment.wellFormed_of_mem_ofBounds?`: what is built has the shape of a segment.
- `Segment.exists_mem_ofBounds?`: it covers what lies between the cuts of its endpoints.
- `Segment.exists_mem_inter?`: a common part covers what both segments cover.
-/

namespace PiecewiseLinear

open Double (toEReal)

namespace Segment

/-! ## Endpoints in their one form -/

theorem isNaN_endpoint {v : Float} (hv : v.isNaN = false) : (endpoint v).isNaN = false := by
  unfold endpoint
  by_cases hzero : (v == Double.zero) = true
  · rw [if_pos hzero]
    exact Double.isNaN_zero
  · rw [if_neg hzero]
    exact hv

/-- An endpoint stays where it is: only the sign of a zero goes. -/
theorem toEReal_endpoint {v : Float} (hv : v.isNaN = false) :
    toEReal (endpoint v) = toEReal v := by
  unfold endpoint
  by_cases hzero : (v == Double.zero) = true
  · rw [if_pos hzero]
    exact ((Double.toEReal_eq_iff hv Double.isNaN_zero).mpr hzero).symm
  · rw [if_neg hzero]

/-- No endpoint is a negative zero. -/
theorem endpoint_ne (v : Float) : endpoint v ≠ -Double.zero := by
  unfold endpoint
  by_cases hzero : (v == Double.zero) = true
  · rw [if_pos hzero]
    exact Double.zero_ne_neg_zero
  · rw [if_neg hzero]
    rintro rfl
    exact hzero (by decide)

theorem isInf_endpoint {v : Float} (hv : v.isNaN = false) : (endpoint v).isInf = v.isInf := by
  rw [Bool.eq_iff_iff, Double.isInf_iff (isNaN_endpoint hv), Double.isInf_iff hv,
    toEReal_endpoint hv]

theorem edgeAt_eq_excluded {v : Float} {edge : Edge} (hv : v.isInf = true) :
    edgeAt v edge = .excluded := by
  rw [edgeAt, if_pos hv]

/-- The edge of an endpoint that may have it. -/
theorem edgeAt_eq_self {v : Float} {edge : Edge} (h : v.isInf = true → edge = .excluded) :
    edgeAt v edge = edge := by
  by_cases hv : v.isInf = true
  · rw [edgeAt_eq_excluded hv, h hv]
  · rw [edgeAt, if_neg hv]

theorem lower_endpoint {v : Float} (hv : v.isNaN = false) (edge : Edge) :
    Cut.lower (endpoint v) edge = Cut.lower v edge := by
  cases edge <;> simp only [Cut.lower, toEReal_endpoint hv]

theorem upper_endpoint {v : Float} (hv : v.isNaN = false) (edge : Edge) :
    Cut.upper (endpoint v) edge = Cut.upper v edge := by
  cases edge <;> simp only [Cut.upper, toEReal_endpoint hv]

theorem le_lower_edgeAt (v : Float) (edge : Edge) :
    Cut.lower v edge ≤ Cut.lower v (edgeAt v edge) := by
  by_cases hinf : v.isInf = true
  · rw [edgeAt_eq_excluded hinf]
    exact Cut.lower_le_lower.mpr (.inr ⟨rfl, .inr rfl⟩)
  · rw [edgeAt, if_neg hinf]

theorem upper_edgeAt_le (v : Float) (edge : Edge) :
    Cut.upper v (edgeAt v edge) ≤ Cut.upper v edge := by
  by_cases hinf : v.isInf = true
  · rw [edgeAt_eq_excluded hinf]
    exact Cut.upper_le_upper.mpr (.inr ⟨rfl, .inl rfl⟩)
  · rw [edgeAt, if_neg hinf]

/-- Within the line an infinite endpoint bounds the same cuts with either edge. -/
theorem lower_edgeAt_le_iff {v : Float} (hv : v.isNaN = false) {edge : Edge} {c : Cut}
    (hc : c ∈ Cut.line) : Cut.lower v (edgeAt v edge) ≤ c ↔ Cut.lower v edge ≤ c := by
  constructor
  · exact (le_lower_edgeAt v edge).trans
  · intro hle
    by_cases hinf : v.isInf = true
    · rw [edgeAt_eq_excluded hinf]
      rcases (Double.isInf_iff hv).mp hinf with htop | hbot
      · -- nothing on the line lies at or beyond its upper end
        have hend : Cut.before ⊤ ≤ Cut.lower v edge := by
          cases edge <;> simp [Cut.lower, htop, Cut.before_le_after]
        exact absurd (hle.trans_lt hc.2) (not_lt.mpr hend)
      · rw [Cut.lower, hbot]
        exact hc.1
    · rwa [edgeAt, if_neg hinf]

/-- On the line it makes no difference to an upper end that an infinite endpoint is excluded. -/
theorem lt_upper_edgeAt_iff {v : Float} (hv : v.isNaN = false) {edge : Edge} {c : Cut}
    (hc : c ∈ Cut.line) : c < Cut.upper v (edgeAt v edge) ↔ c < Cut.upper v edge := by
  constructor
  · intro hlt
    exact hlt.trans_le (upper_edgeAt_le v edge)
  · intro hlt
    by_cases hinf : v.isInf = true
    · rw [edgeAt_eq_excluded hinf]
      rcases (Double.isInf_iff hv).mp hinf with htop | hbot
      · rw [Cut.upper, htop]
        exact hc.2
      · -- nothing on the line lies at or before its lower end
        have hend : Cut.upper v edge ≤ Cut.after ⊥ := by
          cases edge <;> simp [Cut.upper, hbot, Cut.before_le_after]
        exact absurd (hc.1.trans_lt hlt) (not_lt.mpr hend)
    · rwa [edgeAt, if_neg hinf]

/-! ## Segments from endpoints -/

section OfBounds

variable {left right : Edge} {lower upper : Float} {s : Segment}

theorem ofBounds?_of_isNaN (h : lower.isNaN = true ∨ upper.isNaN = true) :
    ofBounds? left lower upper right = none := by
  rw [ofBounds?, if_pos (by rwa [Bool.or_eq_true])]

/-- Two endpoints make a segment when both are numbers and their cuts are in order. -/
theorem ofBounds?_eq_some_iff :
    ofBounds? left lower upper right = some s ↔
      (lower.isNaN = false ∧ upper.isNaN = false) ∧
        s = ⟨edgeAt lower left, endpoint lower, endpoint upper, edgeAt upper right⟩ ∧
          s.start < s.stop := by
  rcases Double.isNaN_or lower upper with ⟨hl, hu⟩ | hnan
  · have horder := nonempty_iff
      (s := ⟨edgeAt lower left, endpoint lower, endpoint upper, edgeAt upper right⟩)
      (isNaN_endpoint hl) (isNaN_endpoint hu)
    simp only [ofBounds?, hl, hu, Bool.or_self, Bool.false_eq_true, if_false, Bool.or_eq_true,
      Bool.and_eq_true, decide_eq_true_eq, Edge.both_eq_included, horder,
      Option.ite_none_right_eq_some, Option.some.injEq, true_and]
    constructor
    · rintro ⟨hlt, rfl⟩
      exact ⟨rfl, hlt⟩
    · rintro ⟨rfl, hlt⟩
      exact ⟨hlt, rfl⟩
  · rw [ofBounds?_of_isNaN hnan]
    refine iff_of_false nofun ?_
    rintro ⟨⟨hl, hu⟩, -⟩
    rw [hl, hu] at hnan
    simp at hnan

/-- Whatever the endpoints are, what is built from them has the shape of a segment. -/
theorem wellFormed_of_mem_ofBounds? (h : s ∈ ofBounds? left lower upper right) :
    s.WellFormed := by
  obtain ⟨⟨hl, hu⟩, hs, hlt⟩ := ofBounds?_eq_some_iff.mp h
  have hl' : s.lower.isNaN = false := hs ▸ isNaN_endpoint hl
  have hu' : s.upper.isNaN = false := hs ▸ isNaN_endpoint hu
  refine ⟨hl', hu', hs ▸ endpoint_ne lower, hs ▸ endpoint_ne upper, ?_, ?_,
    (nonempty_iff hl' hu').mpr hlt⟩
  · rw [hs, isInf_endpoint hl]
    exact edgeAt_eq_excluded
  · rw [hs, isInf_endpoint hu]
    exact edgeAt_eq_excluded

theorem start_of_mem_ofBounds? (h : s ∈ ofBounds? left lower upper right) :
    s.start = Cut.lower lower (edgeAt lower left) := by
  obtain ⟨⟨hl, -⟩, rfl, -⟩ := ofBounds?_eq_some_iff.mp h
  exact lower_endpoint hl _

theorem stop_of_mem_ofBounds? (h : s ∈ ofBounds? left lower upper right) :
    s.stop = Cut.upper upper (edgeAt upper right) := by
  obtain ⟨⟨-, hu⟩, rfl, -⟩ := ofBounds?_eq_some_iff.mp h
  exact upper_endpoint hu _

/-- The cuts around which a segment is built are those between its endpoints. -/
theorem exists_mem_ofBounds? (hl : lower.isNaN = false) (hu : upper.isNaN = false) {c : Cut} :
    (∃ s ∈ ofBounds? left lower upper right, c ∈ s.cuts) ↔
      c ∈ Set.Ico (Cut.lower lower (edgeAt lower left)) (Cut.upper upper (edgeAt upper right)) := by
  constructor
  · rintro ⟨s, hs, hc⟩
    rwa [cuts, start_of_mem_ofBounds? hs, stop_of_mem_ofBounds? hs] at hc
  · intro hc
    refine ⟨_, ofBounds?_eq_some_iff.mpr ⟨⟨hl, hu⟩, rfl, ?_⟩, ?_⟩
    · rw [start, stop, lower_endpoint hl, upper_endpoint hu]
      exact hc.1.trans_lt hc.2
    · rwa [cuts, start, stop, lower_endpoint hl, upper_endpoint hu]

/-- Within the line the edges of infinite endpoints do not count. -/
theorem exists_mem_ofBounds?_of_mem_line (hl : lower.isNaN = false) (hu : upper.isNaN = false)
    {c : Cut} (hc : c ∈ Cut.line) :
    (∃ s ∈ ofBounds? left lower upper right, c ∈ s.cuts) ↔
      Cut.lower lower left ≤ c ∧ c < Cut.upper upper right := by
  rw [exists_mem_ofBounds? hl hu, Set.mem_Ico, lower_edgeAt_le_iff hl hc, lt_upper_edgeAt_iff hu hc]

end OfBounds

/-! ## Common parts -/

/-- The later of two starts is the later cut, and it keeps to the shape of a segment. -/
theorem laterStart_spec {a b : Segment} (ha : a.WellFormed) (hb : b.WellFormed) :
    (laterStart a b).1.isNaN = false ∧
      ((laterStart a b).1.isInf = true → (laterStart a b).2 = .excluded) ∧
        Cut.lower (laterStart a b).1 (laterStart a b).2 = max a.start b.start := by
  unfold laterStart
  split_ifs with hlt hgt
  · rw [← Double.toEReal_lt_iff hb.lower_isNaN ha.lower_isNaN] at hlt
    have hle : b.start ≤ a.start := Cut.lower_le_lower.mpr (.inl hlt)
    exact ⟨ha.lower_isNaN, ha.left_of_isInf, (max_eq_left hle).symm⟩
  · rw [← Double.toEReal_lt_iff ha.lower_isNaN hb.lower_isNaN] at hgt
    have hle : a.start ≤ b.start := Cut.lower_le_lower.mpr (.inl hgt)
    exact ⟨hb.lower_isNaN, hb.left_of_isInf, (max_eq_right hle).symm⟩
  · -- neither endpoint is less, so they are one number
    rw [← Double.toEReal_lt_iff hb.lower_isNaN ha.lower_isNaN, not_lt] at hlt
    rw [← Double.toEReal_lt_iff ha.lower_isNaN hb.lower_isNaN, not_lt] at hgt
    have heq := Double.eq_of_toEReal_eq ha.lower_isNaN hb.lower_isNaN ha.lower_ne hb.lower_ne
      (le_antisymm hlt hgt)
    refine ⟨ha.lower_isNaN, ?_, ?_⟩
    · intro hinf
      rw [ha.left_of_isInf hinf]
      rfl
    · rw [Cut.lower_both, start, start, heq]

/-- The earlier of two ends is the earlier cut, and it keeps to the shape of a segment. -/
theorem earlierEnd_spec {a b : Segment} (ha : a.WellFormed) (hb : b.WellFormed) :
    (earlierEnd a b).1.isNaN = false ∧
      ((earlierEnd a b).1.isInf = true → (earlierEnd a b).2 = .excluded) ∧
        Cut.upper (earlierEnd a b).1 (earlierEnd a b).2 = min a.stop b.stop := by
  unfold earlierEnd
  split_ifs with hlt hgt
  · rw [← Double.toEReal_lt_iff ha.upper_isNaN hb.upper_isNaN] at hlt
    have hle : a.stop ≤ b.stop := Cut.upper_le_upper.mpr (.inl hlt)
    exact ⟨ha.upper_isNaN, ha.right_of_isInf, (min_eq_left hle).symm⟩
  · rw [← Double.toEReal_lt_iff hb.upper_isNaN ha.upper_isNaN] at hgt
    have hle : b.stop ≤ a.stop := Cut.upper_le_upper.mpr (.inl hgt)
    exact ⟨hb.upper_isNaN, hb.right_of_isInf, (min_eq_right hle).symm⟩
  · rw [← Double.toEReal_lt_iff ha.upper_isNaN hb.upper_isNaN, not_lt] at hlt
    rw [← Double.toEReal_lt_iff hb.upper_isNaN ha.upper_isNaN, not_lt] at hgt
    have heq := Double.eq_of_toEReal_eq ha.upper_isNaN hb.upper_isNaN ha.upper_ne hb.upper_ne
      (le_antisymm hgt hlt)
    refine ⟨ha.upper_isNaN, ?_, ?_⟩
    · intro hinf
      rw [ha.right_of_isInf hinf]
      rfl
    · rw [Cut.upper_both, stop, stop, heq]

theorem inter?_eq (a b : Segment) :
    a.inter? b = ofBounds? (laterStart a b).2 (laterStart a b).1 (earlierEnd a b).1
      (earlierEnd a b).2 := rfl

theorem wellFormed_of_mem_inter? {a b s : Segment} (h : s ∈ a.inter? b) : s.WellFormed :=
  wellFormed_of_mem_ofBounds? h

/-- A common part covers exactly what both segments cover. -/
theorem exists_mem_inter? {a b : Segment} (ha : a.WellFormed) (hb : b.WellFormed) {c : Cut} :
    (∃ s ∈ a.inter? b, c ∈ s.cuts) ↔ c ∈ a.cuts ∧ c ∈ b.cuts := by
  obtain ⟨hl, hleft, hstart⟩ := laterStart_spec ha hb
  obtain ⟨hu, hright, hstop⟩ := earlierEnd_spec ha hb
  rw [inter?_eq, exists_mem_ofBounds? hl hu, edgeAt_eq_self hleft, edgeAt_eq_self hright, hstart,
    hstop, ← Set.mem_inter_iff, cuts, cuts, Set.Ico_inter_Ico]

end Segment

end PiecewiseLinear
