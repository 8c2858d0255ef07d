import PiecewiseLinear.Proofs.Region.SetOperations

/-!
# One region for a set of reals

Segments in shape and apart are determined by the reals that they cover: between two cuts
lies a real, so the first segments of two such lists start and stop at the same cuts, and
the lists go on alike.

- `Cut.exists_real_between`: the reals lie densely between cuts.
- `Region.start_le_start`, `Region.stop_le_stop`: where the first segments start and stop.
- `Region.eq_of_covers_subset`: lists that cover the same reals are equal.
- `Region.eq_iff_reals_eq`: regions are equal when they hold the same reals.
- `Region.same_iff_eq`: comparing field by field decides equality.
- `Region.eq_iff_reals_eq_and_algebra`: equality and the laws of sets that follow from it.
-/

namespace PiecewiseLinear

open Double (toEReal)

namespace Cut

/-- Between two cuts of the line there is a real. -/
theorem exists_real_between {c d : Cut} (hc : after ⊥ ≤ c) (hd : d ≤ before ⊤) (h : c < d) :
    ∃ x : ℝ, c ≤ before x ∧ before x < d := by
  obtain ⟨⟨p, b⟩, rfl⟩ := toLex.surjective c
  obtain ⟨⟨q, b'⟩, rfl⟩ := toLex.surjective d
  rcases Prod.Lex.toLex_lt_toLex.mp h with hlt | ⟨heq, hb⟩
  · obtain ⟨x, hpx, hxq⟩ := EReal.lt_iff_exists_real_btwn.mp hlt
    exact ⟨x, Prod.Lex.toLex_le_toLex.mpr (.inl hpx), Prod.Lex.toLex_lt_toLex.mpr (.inl hxq)⟩
  · -- the cuts on the two sides of one point, which is then a real
    obtain ⟨rfl, rfl⟩ := Bool.lt_iff.mp hb
    obtain rfl : p = q := heq
    have hbot : p ≠ ⊥ := (after_le_before.mp hc).ne'
    have htop : p ≠ ⊤ := (after_le_before.mp hd).ne
    refine ⟨p.toReal, ?_⟩
    rw [EReal.coe_toReal htop hbot]
    exact ⟨le_rfl, h⟩

theorem lower_inj {v w : Float} {edge edge' : Edge} :
    lower v edge = lower w edge' ↔ toEReal v = toEReal w ∧ edge = edge' := by
  cases edge <;> cases edge' <;> simp [lower, before, after]

theorem upper_inj {v w : Float} {edge edge' : Edge} :
    upper v edge = upper w edge' ↔ toEReal v = toEReal w ∧ edge = edge' := by
  cases edge <;> cases edge' <;> simp [upper, before, after]

end Cut

namespace Segment

/-- Segments between the same cuts are equal. -/
theorem WellFormed.ext {s t : Segment} (hs : s.WellFormed) (ht : t.WellFormed)
    (hstart : s.start = t.start) (hstop : s.stop = t.stop) : s = t := by
  obtain ⟨hlower, hleft⟩ := Cut.lower_inj.mp hstart
  obtain ⟨hupper, hright⟩ := Cut.upper_inj.mp hstop
  have hl := Double.eq_of_toEReal_eq hs.lower_isNaN ht.lower_isNaN hs.lower_ne ht.lower_ne hlower
  have hu := Double.eq_of_toEReal_eq hs.upper_isNaN ht.upper_isNaN hs.upper_ne ht.upper_ne hupper
  cases s
  cases t
  simp_all

theorem WellFormed.after_bot_le {s : Segment} (hs : s.WellFormed) :
    Cut.after ⊥ ≤ s.start :=
  (hs.cuts_subset_line ⟨le_rfl, hs.start_lt_stop⟩).1

theorem WellFormed.stop_le_top {s : Segment} (hs : s.WellFormed) : s.stop ≤ Cut.before ⊤ := by
  by_contra hlt
  rw [not_le] at hlt
  -- the later of the start and the end of the line would lie in the segment
  have hmem : max s.start (Cut.before ⊤) ∈ s.cuts :=
    ⟨le_max_left _ _, max_lt hs.start_lt_stop hlt⟩
  exact (hs.cuts_subset_line hmem).2.not_ge (le_max_right _ _)

/-- Within a segment there is a real between any two cuts. -/
theorem WellFormed.exists_real {s : Segment} (hs : s.WellFormed) {c d : Cut}
    (hc : s.start ≤ c) (hd : d ≤ s.stop) (h : c < d) :
    ∃ x : ℝ, c ≤ Cut.before x ∧ Cut.before x < d ∧ Cut.before x ∈ s.cuts := by
  obtain ⟨x, hcx, hxd⟩ :=
    Cut.exists_real_between (hs.after_bot_le.trans hc) (hd.trans hs.stop_le_top) h
  exact ⟨x, hcx, hxd, hc.trans hcx, hxd.trans_le hd⟩

/-- Segments with the same ends are equal: endpoints are no NaN and no negative zero, so equal ones
have the same bits. -/
theorem same_iff_eq {s t : Segment} (hs : s.WellFormed) (ht : t.WellFormed) :
    s.same t = true ↔ s = t := by
  have hlower : (s.lower == t.lower) = true ↔ s.lower = t.lower := by
    rw [← Double.toEReal_eq_iff hs.lower_isNaN ht.lower_isNaN]
    refine ⟨?_, congrArg toEReal⟩
    exact Double.eq_of_toEReal_eq hs.lower_isNaN ht.lower_isNaN hs.lower_ne ht.lower_ne
  have hupper : (s.upper == t.upper) = true ↔ s.upper = t.upper := by
    rw [← Double.toEReal_eq_iff hs.upper_isNaN ht.upper_isNaN]
    refine ⟨?_, congrArg toEReal⟩
    exact Double.eq_of_toEReal_eq hs.upper_isNaN ht.upper_isNaN hs.upper_ne ht.upper_ne
  simp only [same, Bool.and_eq_true, decide_eq_true_eq, hlower, hupper]
  cases s
  cases t
  simp [and_assoc]

end Segment

namespace Region

/-! ## Lists of segments that cover the same reals -/

/-- Whether the reals that one list of segments covers are covered by another one. -/
def RealsSubset (ss ts : List Segment) : Prop :=
  ∀ x : ℝ, Cut.before x ∈ covers ss → Cut.before x ∈ covers ts

section Unique

variable {s t : Segment} {ss ts : List Segment}

/-- Nothing is covered in front of the first segment. -/
theorem start_le_of_mem_covers (h : Separated (s :: ss)) {c : Cut} (hc : c ∈ covers (s :: ss)) :
    s.start ≤ c := by
  obtain ⟨u, hu, hle, -⟩ := hc
  rcases List.mem_cons.mp hu with rfl | hu
  · exact hle
  · exact (h.head.start_lt_stop.trans (h.stop_lt hu)).le.trans hle

/-- What covers the reals of a list starts no later than the list does. -/
theorem start_le_start (hs : Separated (s :: ss)) (ht : Separated (t :: ts))
    (h : RealsSubset (t :: ts) (s :: ss)) : s.start ≤ t.start := by
  by_contra hlt
  rw [not_le] at hlt
  -- a real that the first segment holds before the other list starts
  obtain ⟨x, -, hx, hmem⟩ :=
    ht.head.exists_real le_rfl (min_le_left t.stop s.start) (lt_min ht.head.start_lt_stop hlt)
  have hle := start_le_of_mem_covers hs (h x ⟨t, List.mem_cons_self, hmem⟩)
  exact hle.not_gt (hx.trans_le (min_le_right _ _))

/-- The cuts behind the first segment that the first segment after it leaves free. -/
theorem exists_gap (ht : Separated (t :: ts)) {d : Cut} (hd : t.stop < d) :
    ∃ e, t.stop < e ∧ e ≤ d ∧ ∀ c, t.stop ≤ c → c < e → c ∉ covers (t :: ts) := by
  cases ts with
  | nil =>
    refine ⟨d, hd, le_rfl, ?_⟩
    intro c hc _
    simpa [Segment.cuts] using fun _ => hc
  | cons u us =>
    have hgap : t.stop < u.start := ht.stop_lt List.mem_cons_self
    refine ⟨min d u.start, lt_min hd hgap, min_le_left _ _, ?_⟩
    intro c hc hlt hmem
    rw [covers_cons] at hmem
    rcases hmem with hmem | hmem
    · exact hc.not_gt hmem.2
    · exact (start_le_of_mem_covers ht.tail hmem).not_gt (hlt.trans_le (min_le_right _ _))

/-- What covers the reals of a list and starts with it stops no earlier in its first segment. -/
theorem stop_le_stop (hs : Separated (s :: ss)) (ht : Separated (t :: ts))
    (hstart : s.start = t.start) (h : RealsSubset (s :: ss) (t :: ts)) : s.stop ≤ t.stop := by
  by_contra hlt
  rw [not_le] at hlt
  -- a real behind the earlier stop, before the next segment starts
  obtain ⟨e, he, hle, hgap⟩ := exists_gap ht hlt
  have hbegin : s.start ≤ t.stop := hstart.trans_le ht.head.start_lt_stop.le
  obtain ⟨x, hstop, hx, hmem⟩ := hs.head.exists_real hbegin hle he
  exact hgap _ hstop hx (h x ⟨s, List.mem_cons_self, hmem⟩)

/-- Behind equal first segments the coverage of the rest goes on. -/
theorem RealsSubset.tail (hs : Separated (s :: ss)) (h : RealsSubset (s :: ss) (s :: ts)) :
    RealsSubset ss ts := by
  intro x hx
  have hbehind : Cut.before x ∉ s.cuts := by
    obtain ⟨u, hu, hle, -⟩ := hx
    exact fun hmem => (hmem.2.trans (hs.stop_lt hu)).not_ge hle
  have hmem := h x (by rw [covers_cons]; exact .inr hx)
  rw [covers_cons] at hmem
  exact hmem.resolve_left hbehind

/-- A segment has a real, so the reals of some are not among those of none. -/
theorem not_realsSubset_nil (hs : Separated (s :: ss)) : ¬ RealsSubset (s :: ss) [] := by
  intro h
  obtain ⟨x, -, -, hmem⟩ := hs.head.exists_real le_rfl le_rfl hs.head.start_lt_stop
  have hnone := h x ⟨s, List.mem_cons_self, hmem⟩
  rw [covers_nil] at hnone
  exact hnone

end Unique

/-- Segments apart that cover the same reals are the same segments, by induction along both
lists: their first segments have the same cuts, and their tails cover the same reals. -/
theorem eq_of_covers_subset {ss ts : List Segment} (hs : Separated ss) (ht : Separated ts)
    (hst : RealsSubset ss ts) (hts : RealsSubset ts ss) : ss = ts := by
  induction ss generalizing ts with
  | nil =>
    cases ts with
    | nil => rfl
    | cons t ts => exact absurd hts (not_realsSubset_nil ht)
  | cons s ss ih =>
    cases ts with
    | nil => exact absurd hst (not_realsSubset_nil hs)
    | cons t ts =>
      have hstart : s.start = t.start :=
        le_antisymm (start_le_start hs ht hts) (start_le_start ht hs hst)
      have hstop : s.stop = t.stop :=
        le_antisymm (stop_le_stop hs ht hstart hst) (stop_le_stop ht hs hstart.symm hts)
      obtain rfl := hs.head.ext ht.head hstart hstop
      rw [ih hs.tail ht.tail (hst.tail hs) (hts.tail ht)]

/-! ## Regions that hold the same reals -/

section Equality

variable {a b c : Region}

/-- **One region for a set of reals.** -/
theorem eq_iff_reals_eq (ha : Reachable a) (hb : Reachable b) : a = b ↔ a.reals = b.reals := by
  constructor
  · exact congrArg reals
  · intro h
    have hab : RealsSubset a.segments b.segments := by
      intro x hx
      rw [← mem_reals_iff] at hx ⊢
      rwa [← h]
    have hba : RealsSubset b.segments a.segments := by
      intro x hx
      rw [← mem_reals_iff] at hx ⊢
      rwa [h]
    have hsegments := eq_of_covers_subset ha.separated hb.separated hab hba
    cases a
    cases b
    exact congrArg Region.mk hsegments

theorem reals_empty : empty.reals = ∅ := by
  simp [reals, empty]

/-- A region without segments is the one without reals. -/
theorem isEmpty_iff_reals_eq_empty (ha : Reachable a) : a.isEmpty = true ↔ a.reals = ∅ := by
  rw [← reals_empty, ← eq_iff_reals_eq ha .empty, isEmpty, List.isEmpty_iff]
  cases a
  simp [empty]

/-- Comparing field by field, with endpoints compared as numbers, decides equality. -/
theorem same_iff_eq (ha : Reachable a) (hb : Reachable b) : a.same b = true ↔ a = b := by
  have hsegments {ss ts : List Segment} (hs : ∀ s ∈ ss, s.WellFormed)
      (ht : ∀ t ∈ ts, t.WellFormed) : ss.isEqv ts Segment.same = true ↔ ss = ts := by
    induction ss generalizing ts with
    | nil => cases ts <;> simp [List.isEqv]
    | cons s ss ih =>
      cases ts with
      | nil => simp [List.isEqv]
      | cons t ts =>
        rw [List.forall_mem_cons] at hs ht
        rw [List.isEqv, Bool.and_eq_true, Segment.same_iff_eq hs.1 ht.1, ih hs.2 ht.2,
          List.cons.injEq]
  rw [same, hsegments ha.separated.wellFormed hb.separated.wellFormed]
  cases a
  cases b
  simp

end Equality

/-! ## The laws of sets -/

section Algebra

variable {a b c : Region} (ha : Reachable a) (hb : Reachable b) (hc : Reachable c)
include ha

theorem union_self : a.union a = a := by
  rw [eq_iff_reals_eq (ha.union ha) ha, reals_union ha ha, Set.union_self]

theorem inter_self : a.inter a = a := by
  rw [eq_iff_reals_eq (ha.inter ha) ha, reals_inter ha ha, Set.inter_self]

theorem compl_compl_self : a.compl.compl = a := by
  rw [eq_iff_reals_eq ha.compl.compl ha, reals_compl ha.compl, reals_compl ha, compl_compl]

include hb

theorem union_comm : a.union b = b.union a := by
  rw [eq_iff_reals_eq (ha.union hb) (hb.union ha), reals_union ha hb, reals_union hb ha,
    Set.union_comm]

theorem inter_comm : a.inter b = b.inter a := by
  rw [eq_iff_reals_eq (ha.inter hb) (hb.inter ha), reals_inter ha hb, reals_inter hb ha,
    Set.inter_comm]

theorem union_inter_self : a.union (a.inter b) = a := by
  rw [eq_iff_reals_eq (ha.union (ha.inter hb)) ha, reals_union ha (ha.inter hb),
    reals_inter ha hb, Set.union_eq_left.mpr Set.inter_subset_left]

theorem inter_union_self : a.inter (a.union b) = a := by
  rw [eq_iff_reals_eq (ha.inter (ha.union hb)) ha, reals_inter ha (ha.union hb),
    reals_union ha hb, Set.inter_eq_left.mpr Set.subset_union_left]

theorem compl_union : (a.union b).compl = a.compl.inter b.compl := by
  rw [eq_iff_reals_eq (ha.union hb).compl (ha.compl.inter hb.compl), reals_compl (ha.union hb),
    reals_union ha hb, reals_inter ha.compl hb.compl, reals_compl ha, reals_compl hb,
    Set.compl_union]

theorem compl_inter : (a.inter b).compl = a.compl.union b.compl := by
  rw [eq_iff_reals_eq (ha.inter hb).compl (ha.compl.union hb.compl), reals_compl (ha.inter hb),
    reals_inter ha hb, reals_union ha.compl hb.compl, reals_compl ha, reals_compl hb,
    Set.compl_inter]

/-- Intersecting pair by pair comes to the same as uniting complements. -/
theorem inter_eq_compl_union : a.inter b = (a.compl.union b.compl).compl := by
  rw [← compl_inter ha hb, compl_compl_self (ha.inter hb)]

include hc

theorem union_assoc : (a.union b).union c = a.union (b.union c) := by
  rw [eq_iff_reals_eq ((ha.union hb).union hc) (ha.union (hb.union hc)),
    reals_union (ha.union hb) hc, reals_union ha hb, reals_union ha (hb.union hc),
    reals_union hb hc, Set.union_assoc]

theorem inter_assoc : (a.inter b).inter c = a.inter (b.inter c) := by
  rw [eq_iff_reals_eq ((ha.inter hb).inter hc) (ha.inter (hb.inter hc)),
    reals_inter (ha.inter hb) hc, reals_inter ha hb, reals_inter ha (hb.inter hc),
    reals_inter hb hc, Set.inter_assoc]

theorem union_inter_distrib : a.union (b.inter c) = (a.union b).inter (a.union c) := by
  rw [eq_iff_reals_eq (ha.union (hb.inter hc)) ((ha.union hb).inter (ha.union hc)),
    reals_union ha (hb.inter hc), reals_inter hb hc, reals_inter (ha.union hb) (ha.union hc),
    reals_union ha hb, reals_union ha hc, Set.union_inter_distrib_left]

theorem inter_union_distrib : a.inter (b.union c) = (a.inter b).union (a.inter c) := by
  rw [eq_iff_reals_eq (ha.inter (hb.union hc)) ((ha.inter hb).union (ha.inter hc)),
    reals_inter ha (hb.union hc), reals_union hb hc, reals_union (ha.inter hb) (ha.inter hc),
    reals_inter ha hb, reals_inter ha hc, Set.inter_union_distrib_left]

end Algebra

section Unions

variable {a : Region} {regions regions' : List Region}

/-- A union that is gathered region by region has the reals of all of them. -/
theorem reals_foldl_union (ha : Reachable a) (h : ∀ r ∈ regions, Reachable r) :
    (regions.foldl union a).reals = a.reals ∪ ⋃ r ∈ regions, r.reals := by
  induction regions generalizing a with
  | nil => simp
  | cons b rest ih =>
    rw [List.forall_mem_cons] at h
    rw [List.foldl_cons, ih (ha.union h.1) h.2, reals_union ha h.1, Set.union_assoc]
    simp

/-- Uniting regions at once comes to the same as uniting them one by one in any order. -/
theorem unions_eq_foldl (h : ∀ r ∈ regions, Reachable r) (hperm : regions'.Perm regions) :
    unions regions = regions'.foldl union empty := by
  have h' : ∀ r ∈ regions', Reachable r := fun r hr => h r (hperm.mem_iff.mp hr)
  rw [eq_iff_reals_eq (.unions h) (reachable_foldl .union .empty h'), reals_unions h,
    reals_foldl_union .empty h', reals_empty, Set.empty_union]
  simp only [hperm.mem_iff]

end Unions

/-- **Equality of regions is equality of sets.** Regions have the same segments exactly when
they hold the same reals, and comparing field by field finds that out. So the laws of sets
hold of regions as they are represented. -/
theorem eq_iff_reals_eq_and_algebra {a b c : Region} {regions regions' : List Region}
    (ha : Reachable a) (hb : Reachable b) (hc : Reachable c)
    (hregions : ∀ r ∈ regions, Reachable r) (hperm : regions'.Perm regions) :
    ((a.same b = true ↔ a = b) ∧ (a = b ↔ a.reals = b.reals)) ∧
    (a.isEmpty = true ↔ a.reals = ∅) ∧
    (a.union b = b.union a ∧ a.inter b = b.inter a) ∧
    ((a.union b).union c = a.union (b.union c) ∧
      (a.inter b).inter c = a.inter (b.inter c)) ∧
    (a.union a = a ∧ a.inter a = a) ∧
    (a.union (a.inter b) = a ∧ a.inter (a.union b) = a) ∧
    (a.union (b.inter c) = (a.union b).inter (a.union c) ∧
      a.inter (b.union c) = (a.inter b).union (a.inter c)) ∧
    a.compl.compl = a ∧
    ((a.union b).compl = a.compl.inter b.compl ∧ (a.inter b).compl = a.compl.union b.compl ∧
      a.inter b = (a.compl.union b.compl).compl) ∧
    unions regions = regions'.foldl union empty := by
  refine ⟨⟨?_, ?_⟩, ?_, ⟨?_, ?_⟩, ⟨?_, ?_⟩, ⟨?_, ?_⟩, ⟨?_, ?_⟩, ⟨?_, ?_⟩, ?_, ⟨?_, ?_, ?_⟩, ?_⟩
  · exact same_iff_eq ha hb
  · exact eq_iff_reals_eq ha hb
  · exact isEmpty_iff_reals_eq_empty ha
  · exact union_comm ha hb
  · exact inter_comm ha hb
  · exact union_assoc ha hb hc
  · exact inter_assoc ha hb hc
  · exact union_self ha
  · exact inter_self ha
  · exact union_inter_self ha hb
  · exact inter_union_self ha hb
  · exact union_inter_distrib ha hb hc
  · exact inter_union_distrib ha hb hc
  · exact compl_compl_self ha
  · exact compl_union ha hb
  · exact compl_inter ha hb
  · exact inter_eq_compl_union ha hb
  · exact unions_eq_foldl hregions hperm

/-- Two half-lines and the point between them, united in another order, leave no gap. -/
theorem eq_iff_reals_eq_and_algebra_half_lines :
    unions [Iio Double.zero, Ioi Double.zero, point Double.zero] =
        [point Double.zero, Iio Double.zero, Ioi Double.zero].foldl union empty ∧
      (Iio Double.zero).inter (point Double.zero) =
        ((Iio Double.zero).compl.union (point Double.zero).compl).compl := by
  have hpoint : Reachable (point Double.zero) := .ofBounds _ _ _ _
  have hless : Reachable (Iio Double.zero) := .ofBounds _ _ _ _
  have hgreater : Reachable (Ioi Double.zero) := .ofBounds _ _ _ _
  have hregions : ∀ r ∈ [Iio Double.zero, Ioi Double.zero, point Double.zero], Reachable r := by
    simp [hpoint, hless, hgreater]
  have hperm : ([point Double.zero] ++ [Iio Double.zero, Ioi Double.zero]).Perm
      ([Iio Double.zero, Ioi Double.zero] ++ [point Double.zero]) := List.perm_append_comm
  obtain ⟨-, -, -, -, -, -, -, -, ⟨-, -, hinter⟩, hunions⟩ :=
    eq_iff_reals_eq_and_algebra hless hpoint hgreater hregions hperm
  exact ⟨hunions, hinter⟩

end Region

end PiecewiseLinear
