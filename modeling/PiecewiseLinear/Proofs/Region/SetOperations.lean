import PiecewiseLinear.Proofs.Region.Sweep

/-!
# Set operations on regions

Every region that can be built is a list of segments in shape and apart, and the operations
on regions are the operations on sets of reals.

- `Region.Reachable`: the regions that constructors and operations build in any order.
- `Region.Reachable.separated`: the invariant of their segments.
- `Region.segments_normal`: the invariant, field by field and neighbour by neighbour.
- `Region.reals`: the set of reals that a region stands for.
- `Region.mem_operations`: membership of doubles and of reals in the results of operations.
-/

namespace PiecewiseLinear

open Double (toReal toEReal)

namespace Region

/-- The regions that are built from endpoints of any kind and by operations on regions that
are built already. The line, its half-lines and single points are built from endpoints. -/
inductive Reachable : Region → Prop where
  | empty : Reachable empty
  | ofBounds (left : Edge) (lower upper : Float) (right : Edge) :
    Reachable (ofBounds left lower upper right)
  | union {a b : Region} : Reachable a → Reachable b → Reachable (a.union b)
  | inter {a b : Region} : Reachable a → Reachable b → Reachable (a.inter b)
  | compl {a : Region} : Reachable a → Reachable a.compl
  | unions {regions : List Region} :
    (∀ a ∈ regions, Reachable a) → Reachable (unions regions)

/-- Folding an operation over regions that can be built gives one that can be built. -/
theorem reachable_foldl {op : Region → Region → Region} {a : Region} {regions : List Region}
    (hop : ∀ {a b : Region}, a.Reachable → b.Reachable → (op a b).Reachable)
    (ha : a.Reachable) (h : ∀ r ∈ regions, r.Reachable) : (regions.foldl op a).Reachable := by
  induction regions generalizing a with
  | nil => exact ha
  | cons b rest ih =>
    rw [List.forall_mem_cons] at h
    exact ih (hop ha h.1) h.2

/-- The reals in a region. -/
def reals (a : Region) : Set ℝ := ⋃ s ∈ a.segments, s.reals

/-! ## What operations cover -/

section Covers

variable {a b : Region}

theorem covers_union (ha : Separated a.segments) (hb : Separated b.segments) :
    covers (a.union b).segments = covers a.segments ∪ covers b.segments := by
  rw [union, covers_ofSegments, covers_append]
  exact List.forall_mem_append.mpr ⟨ha.wellFormed, hb.wellFormed⟩

/-- The union of any number of regions covers what each of them covers. -/
theorem covers_unions {regions : List Region} (h : ∀ a ∈ regions, Separated a.segments) :
    covers (unions regions).segments = ⋃ a ∈ regions, covers a.segments := by
  rw [unions, covers_ofSegments]
  · ext c
    simp only [covers, List.mem_flatMap, Set.mem_ofPred_eq, Set.mem_iUnion, exists_prop]
    constructor
    · rintro ⟨s, ⟨a, ha, hs⟩, hc⟩
      exact ⟨a, ha, s, hs, hc⟩
    · rintro ⟨a, ha, s, hs, hc⟩
      exact ⟨s, ⟨a, ha, hs⟩, hc⟩
  · intro s hs
    obtain ⟨a, ha, hs⟩ := List.mem_flatMap.mp hs
    exact (h a ha).wellFormed s hs

theorem wellFormed_of_mem_pairs {ss ts : List Segment} {u : Segment}
    (h : u ∈ ss.flatMap fun s => ts.filterMap s.inter?) : u.WellFormed := by
  obtain ⟨s, -, hu⟩ := List.mem_flatMap.mp h
  obtain ⟨t, -, hu⟩ := List.mem_filterMap.mp hu
  exact Segment.wellFormed_of_mem_inter? hu

/-- The common parts of all pairs cover what both lists cover. -/
theorem covers_pairs {ss ts : List Segment} (hs : ∀ s ∈ ss, s.WellFormed)
    (ht : ∀ t ∈ ts, t.WellFormed) :
    covers (ss.flatMap fun s => ts.filterMap s.inter?) = covers ss ∩ covers ts := by
  ext c
  simp only [covers, List.mem_flatMap, List.mem_filterMap, Set.mem_inter_iff, Set.mem_ofPred_eq]
  constructor
  · rintro ⟨u, ⟨s, hmem, t, hmem', hu⟩, hc⟩
    obtain ⟨hcs, hct⟩ := (Segment.exists_mem_inter? (hs s hmem) (ht t hmem')).mp ⟨u, hu, hc⟩
    exact ⟨⟨s, hmem, hcs⟩, t, hmem', hct⟩
  · rintro ⟨⟨s, hmem, hcs⟩, t, hmem', hct⟩
    obtain ⟨u, hu, hc⟩ :=
      (Segment.exists_mem_inter? (hs s hmem) (ht t hmem')).mpr ⟨hcs, hct⟩
    exact ⟨u, ⟨s, hmem, t, hmem', hu⟩, hc⟩

theorem covers_inter (ha : Separated a.segments) (hb : Separated b.segments) :
    covers (a.inter b).segments = covers a.segments ∩ covers b.segments := by
  have hpairs := covers_pairs ha.wellFormed hb.wellFormed
  rw [inter, covers_ofSegments fun _ => wellFormed_of_mem_pairs, hpairs]

/-- No segment starts before the line does. -/
theorem lower_neg_infinity_le {s : Segment} (hs : s.WellFormed) :
    Cut.lower (-Double.infinity) .excluded ≤ s.start := by
  rw [Cut.lower, Double.toEReal_neg_infinity]
  exact (hs.cuts_subset_line ⟨le_rfl, hs.start_lt_stop⟩).1

/-- On the line, the complement of a region covers what the region does not. -/
theorem mem_covers_compl (ha : Separated a.segments) {c : Cut} (hc : c ∈ Cut.line) :
    c ∈ covers a.compl.segments ↔ c ∉ covers a.segments := by
  have hle (s : Segment) (hs : s ∈ a.segments) :
      Cut.lower (-Double.infinity) .excluded ≤ s.start :=
    lower_neg_infinity_le (ha.wellFormed s hs)
  rw [compl, mem_covers_gapsFrom Double.isNaN_neg_infinity ha hle hc, Cut.lower,
    Double.toEReal_neg_infinity]
  exact and_iff_right hc.1

end Covers

/-! ## The invariant -/

theorem separated_ofBounds (left : Edge) (lower upper : Float) (right : Edge) :
    Separated (ofBounds left lower upper right).segments :=
  ⟨fun _ hs => Segment.wellFormed_of_mem_ofBounds? (Option.mem_toList.mp hs), pairwise_toList _⟩

theorem separated_compl {a : Region} (ha : Separated a.segments) : Separated a.compl.segments :=
  separated_gapsFrom ha fun s hs => lower_neg_infinity_le (ha.wellFormed s hs)

/-- Every operation leaves segments in shape and apart. -/
theorem Reachable.separated {a : Region} (h : Reachable a) : Separated a.segments := by
  induction h with
  | empty => exact ⟨nofun, .nil⟩
  | ofBounds left lower upper right => exact separated_ofBounds left lower upper right
  | union _ _ iha ihb =>
    exact separated_ofSegments (List.forall_mem_append.mpr ⟨iha.wellFormed, ihb.wellFormed⟩)
  | inter => exact separated_ofSegments fun _ => wellFormed_of_mem_pairs
  | compl _ ih => exact separated_compl ih
  | unions _ ih =>
    apply separated_ofSegments
    intro s hs
    obtain ⟨a, ha, hs⟩ := List.mem_flatMap.mp hs
    exact (ih a ha).wellFormed s hs

/-- **The normal form of regions**: whatever the arguments of constructors are, and whatever
operations follow, segments have the shape of segments and neighbours leave a gap. -/
theorem segments_normal {a : Region} (h : Reachable a) :
    (∀ s ∈ a.segments, s.WellFormed) ∧ a.segments.IsChain Segment.Apart :=
  ⟨h.separated.wellFormed, h.separated.apart.isChain⟩

theorem segments_normal_compl_point :
    (∀ s ∈ ((point (-Double.zero)).compl.union (point Double.nan)).segments, s.WellFormed) ∧
      ((point (-Double.zero)).compl.union (point Double.nan)).segments.IsChain Segment.Apart :=
  segments_normal (.union (.compl (.ofBounds _ _ _ _)) (.ofBounds _ _ _ _))

/-! ## Membership -/

section Membership

variable {a b : Region}

theorem mem_reals_iff {x : ℝ} : x ∈ a.reals ↔ Cut.before x ∈ covers a.segments := by
  simp [reals, covers, Segment.mem_reals_iff]

/-- A double lies in a region if and only if the region covers the cut in front of it. -/
theorem mem_iff (ha : Reachable a) {v : Float} (hv : v.isNaN = false) :
    v ∈ a ↔ Cut.before (toEReal v) ∈ covers a.segments := by
  have hsegment (s : Segment) (hs : s ∈ a.segments) :
      s.contains v = true ↔ Cut.before (toEReal v) ∈ s.cuts :=
    Segment.contains_iff (ha.separated.wellFormed s hs) hv
  show a.segments.any (·.contains v) = true ↔ _
  rw [List.any_eq_true]
  exact exists_congr fun s => and_congr_right (hsegment s)

/-- A finite double is in a region when the real that it stands for is. -/
theorem mem_iff_toReal_mem (ha : Reachable a) {v : Float} (hv : v.isFinite = true) :
    v ∈ a ↔ toReal v ∈ a.reals := by
  rw [mem_iff ha (Double.isNaN_of_isFinite hv), mem_reals_iff, Double.toEReal_of_isFinite hv]

theorem real_mem_line (x : ℝ) : Cut.before x ∈ Cut.line :=
  Cut.before_mem_line.mpr ⟨EReal.bot_lt_coe x, EReal.coe_lt_top x⟩

theorem reals_union (ha : Reachable a) (hb : Reachable b) :
    (a.union b).reals = a.reals ∪ b.reals := by
  ext x
  have hcovers := covers_union ha.separated hb.separated
  rw [Set.mem_union, mem_reals_iff, mem_reals_iff, mem_reals_iff, hcovers]
  rfl

theorem reals_inter (ha : Reachable a) (hb : Reachable b) :
    (a.inter b).reals = a.reals ∩ b.reals := by
  ext x
  have hcovers := covers_inter ha.separated hb.separated
  rw [Set.mem_inter_iff, mem_reals_iff, mem_reals_iff, mem_reals_iff, hcovers]
  rfl

theorem reals_compl (ha : Reachable a) : a.compl.reals = a.realsᶜ := by
  ext x
  have hcovers := mem_covers_compl ha.separated (real_mem_line x)
  rw [Set.mem_compl_iff, mem_reals_iff, mem_reals_iff, hcovers]

theorem reals_unions {regions : List Region} (h : ∀ a ∈ regions, Reachable a) :
    (unions regions).reals = ⋃ a ∈ regions, a.reals := by
  ext x
  rw [mem_reals_iff, covers_unions fun a ha => (h a ha).separated]
  simp only [Set.mem_iUnion, mem_reals_iff]

theorem mem_union (ha : Reachable a) (hb : Reachable b) {v : Float} (hv : v.isFinite = true) :
    v ∈ a.union b ↔ v ∈ a ∨ v ∈ b := by
  rw [mem_iff_toReal_mem ha hv, mem_iff_toReal_mem hb hv, mem_iff_toReal_mem (ha.union hb) hv,
    reals_union ha hb, Set.mem_union]

theorem mem_inter (ha : Reachable a) (hb : Reachable b) {v : Float} (hv : v.isFinite = true) :
    v ∈ a.inter b ↔ v ∈ a ∧ v ∈ b := by
  rw [mem_iff_toReal_mem ha hv, mem_iff_toReal_mem hb hv, mem_iff_toReal_mem (ha.inter hb) hv,
    reals_inter ha hb, Set.mem_inter_iff]

theorem mem_compl (ha : Reachable a) {v : Float} (hv : v.isFinite = true) :
    v ∈ a.compl ↔ v ∉ a := by
  rw [mem_iff_toReal_mem ha hv, mem_iff_toReal_mem ha.compl hv, reals_compl ha,
    Set.mem_compl_iff]

/-- A finite double lies in a union where it lies in one of the regions. -/
theorem mem_unions {regions : List Region} (h : ∀ a ∈ regions, Reachable a) {v : Float}
    (hv : v.isFinite = true) : v ∈ unions regions ↔ ∃ a ∈ regions, v ∈ a := by
  have hregion (a : Region) (ha : a ∈ regions) : toReal v ∈ a.reals ↔ v ∈ a :=
    (mem_iff_toReal_mem (h a ha) hv).symm
  rw [mem_iff_toReal_mem (.unions h) hv, reals_unions h]
  simp only [Set.mem_iUnion, exists_prop]
  exact exists_congr fun a => and_congr_right (hregion a)

/-- Neither what is no number nor an infinity is in a region. -/
theorem not_mem_of_not_isFinite (ha : Reachable a) {v : Float} (hv : v.isFinite = false) :
    v ∉ a := by
  cases hnan : v.isNaN with
  | true =>
    show ¬ a.segments.any (·.contains v) = true
    simp [Segment.not_contains_of_isNaN _ hnan]
  | false =>
    -- a segment around an infinity would go beyond the line
    rw [mem_iff ha hnan]
    rintro ⟨s, hs, hc⟩
    have hline := (ha.separated.wellFormed s hs).cuts_subset_line hc
    rw [Cut.before_mem_line, bot_lt_iff_ne_bot, lt_top_iff_ne_top] at hline
    have hinf : v.isInf = true := by
      rw [← Bool.not_eq_false]
      exact fun hinf => Bool.false_ne_true (hv ▸ (Double.isFinite_iff v).mpr ⟨hnan, hinf⟩)
    rcases (Double.isInf_iff hnan).mp hinf with htop | hbot
    · exact hline.2 htop
    · exact hline.1 hbot

/-- Both zeros stand for one real. -/
theorem neg_zero_mem_iff (ha : Reachable a) : -Double.zero ∈ a ↔ Double.zero ∈ a := by
  have hpoint : toEReal (-Double.zero) = toEReal Double.zero :=
    (Double.toEReal_eq_iff (by decide) Double.isNaN_zero).mpr (by decide)
  rw [mem_iff ha (by decide), mem_iff ha Double.isNaN_zero, hpoint]

/-- What lies between two endpoints, found by comparing with each of them. -/
theorem mem_ofBounds {left right : Edge} {lower upper v : Float} (hv : v.isFinite = true) :
    v ∈ ofBounds left lower upper right ↔
      (lower < v ∨ left = .included ∧ (lower == v) = true) ∧
        (v < upper ∨ right = .included ∧ (v == upper) = true) := by
  have hnan := Double.isNaN_of_isFinite hv
  rcases Double.isNaN_or lower upper with ⟨hl, hu⟩ | h
  · have hline : Cut.before (toEReal v) ∈ Cut.line := by
      rw [Double.toEReal_of_isFinite hv]
      exact real_mem_line _
    rw [mem_iff (.ofBounds _ _ _ _) hnan, ofBounds, mem_covers_toList,
      Segment.exists_mem_ofBounds?_of_mem_line hl hu hline, Cut.lower_le_before,
      Cut.before_lt_upper, Double.toEReal_lt_iff hl hnan, Double.toEReal_eq_iff hl hnan,
      Double.toEReal_lt_iff hnan hu, Double.toEReal_eq_iff hnan hu]
  · rw [ofBounds, Segment.ofBounds?_of_isNaN h]
    refine iff_of_false nofun ?_
    rintro ⟨hlower, hupper⟩
    rcases h with hl | hu
    · rw [Double.beq_of_isNaN (.inl hl)] at hlower
      simp [Double.not_lt_of_isNaN (.inl hl)] at hlower
    · rw [Double.beq_of_isNaN (.inr hu)] at hupper
      simp [Double.not_lt_of_isNaN (.inr hu)] at hupper

/-- **Operations on regions are the set operations**, on finite doubles and on reals. No
region holds any other double, and none tells the zeros apart. -/
theorem mem_operations {regions : List Region} (ha : Reachable a) (hb : Reachable b)
    (hregions : ∀ r ∈ regions, Reachable r) :
    (∀ v : Float, v.isFinite = true →
      (v ∈ a.union b ↔ v ∈ a ∨ v ∈ b) ∧ (v ∈ a.inter b ↔ v ∈ a ∧ v ∈ b) ∧
        (v ∈ a.compl ↔ v ∉ a) ∧ (v ∈ unions regions ↔ ∃ r ∈ regions, v ∈ r)) ∧
    ((a.union b).reals = a.reals ∪ b.reals ∧ (a.inter b).reals = a.reals ∩ b.reals ∧
      a.compl.reals = a.realsᶜ ∧ (unions regions).reals = ⋃ r ∈ regions, r.reals) ∧
    (∀ v : Float, v.isFinite = true → (v ∈ a ↔ toReal v ∈ a.reals)) ∧
    (∀ v : Float, v.isFinite = false → v ∉ a) ∧ (-Double.zero ∈ a ↔ Double.zero ∈ a) := by
  refine ⟨fun v hv => ⟨?_, ?_, ?_, ?_⟩, ⟨?_, ?_, ?_, ?_⟩, ?_, ?_, ?_⟩
  · exact mem_union ha hb hv
  · exact mem_inter ha hb hv
  · exact mem_compl ha hv
  · exact mem_unions hregions hv
  · exact reals_union ha hb
  · exact reals_inter ha hb
  · exact reals_compl ha
  · exact reals_unions hregions
  · exact fun v => mem_iff_toReal_mem ha
  · exact fun v => not_mem_of_not_isFinite ha
  · exact neg_zero_mem_iff ha

/-- A point fills the puncture that it leaves. -/
theorem mem_operations_puncture :
    ((point Double.zero).compl.union (point Double.zero)).reals = Set.univ ∧
      (unions [(point Double.zero).compl, point Double.zero]).reals = Set.univ := by
  have hpoint : Reachable (point Double.zero) := .ofBounds _ _ _ _
  have hregions : ∀ r ∈ [(point Double.zero).compl, point Double.zero], Reachable r := by
    simp [hpoint, hpoint.compl]
  obtain ⟨-, ⟨hunion, -, hcompl, hunions⟩, -⟩ := mem_operations hpoint hpoint.compl hregions
  obtain ⟨-, ⟨hunion, -⟩, -⟩ := mem_operations hpoint.compl hpoint hregions
  refine ⟨?_, ?_⟩
  · rw [hunion, hcompl, Set.compl_union_self]
  · rw [hunions]
    simp [hcompl]

end Membership

end Region

end PiecewiseLinear
