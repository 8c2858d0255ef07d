import PiecewiseLinear.Piecewise.Basic
import PiecewiseLinear.Proofs.Region.Canonical

/-!
# Assembled functions

What assembling regions and functions comes to, and how the regions of an assembled function
divide the line.

- `Region.overlaps_iff`: overlapping is sharing a real.
- `mem_overlappingPairs`, `pairwise_overlappingPairs`: which pairs are listed, and in which
  order.
- `overlappingPairs_append`: a last region that meets no other adds no pair.
- `Piecewise.of_assemble`: the two shapes of an assembled function.
- `Piecewise.assemble_outcome`: which error is found for which regions and functions.
- `Piecewise.partition_of_assemble`: the branches of an assembled function share no real, and
  with a branch for all that the others leave they cover the line.
-/

namespace PiecewiseLinear

open Double (toReal)

/-! ## Overlapping pairs -/

theorem Region.overlaps_iff {a b : Region} (ha : a.Reachable) (hb : b.Reachable) :
    a.overlaps b = true ↔ (a.reals ∩ b.reals).Nonempty := by
  rw [overlaps, Bool.not_eq_true', ← Bool.not_eq_true, isEmpty_iff_reals_eq_empty (ha.inter hb),
    reals_inter ha hb, Set.nonempty_iff_ne_empty]

/-- Two of the regions in a list share a real. -/
def Overlapping (domains : List Region) (i j : Nat) : Prop :=
  ∃ a b, domains[i]? = some a ∧ domains[j]? = some b ∧ (a.reals ∩ b.reals).Nonempty

/-- Regions with numbers that grow along the list. -/
def Numbered (regions : List (Region × Nat)) : Prop := regions.Pairwise fun r r' => r.2 < r'.2

theorem numbered_zipIdx (domains : List Region) : Numbered domains.zipIdx := by
  rw [Numbered, ← List.pairwise_map, List.zipIdx_map_snd]
  exact List.pairwise_lt_range' 1

section Pairs

variable {a : Region} {i : Nat} {rest regions : List (Region × Nat)} {p : Nat × Nat}

/-- The pairs of a region with those behind it are the pairs of its place with the places of regions
that it overlaps. -/
theorem mem_overlapsAfter :
    p ∈ overlapsAfter a i rest ↔ p.1 = i ∧ ∃ b, (b, p.2) ∈ rest ∧ a.overlaps b = true := by
  obtain ⟨k, j⟩ := p
  simp only [overlapsAfter, List.mem_map, List.mem_filter, Prod.exists, Prod.mk.injEq]
  constructor
  · rintro ⟨b, j, ⟨hmem, hoverlaps⟩, rfl, rfl⟩
    exact ⟨rfl, b, hmem, hoverlaps⟩
  · rintro ⟨rfl, b, hmem, hoverlaps⟩
    exact ⟨b, j, ⟨hmem, hoverlaps⟩, rfl, rfl⟩

/-- The pairs listed are those of regions that overlap, the earlier one in front. -/
theorem mem_overlappingPairs (h : Numbered regions) :
    p ∈ overlappingPairs regions ↔
      p.1 < p.2 ∧ ∃ a b, (a, p.1) ∈ regions ∧ (b, p.2) ∈ regions ∧ a.overlaps b = true := by
  induction regions with
  | nil => simp [overlappingPairs]
  | cons r rest ih =>
    obtain ⟨a, i⟩ := r
    have hhead (b : Region) (j : Nat) (hmem : (b, j) ∈ rest) : i < j :=
      List.rel_of_pairwise_cons h hmem
    rw [overlappingPairs, List.mem_append, mem_overlapsAfter, ih h.of_cons]
    constructor
    · rintro (⟨hi, b, hb, hoverlaps⟩ | ⟨hlt, a', b, ha, hb, hoverlaps⟩)
      · rw [hi]
        exact ⟨hhead b _ hb, a, b, List.mem_cons_self, List.mem_cons_of_mem _ hb, hoverlaps⟩
      · exact ⟨hlt, a', b, List.mem_cons_of_mem _ ha, List.mem_cons_of_mem _ hb, hoverlaps⟩
    · rintro ⟨hlt, a', b, ha, hb, hoverlaps⟩
      rcases List.mem_cons.mp hb with heq | hrest
      · -- the later region would be the first one
        obtain ⟨rfl, hj⟩ := Prod.mk.inj heq
        rcases List.mem_cons.mp ha with heq | ha
        · exact absurd hlt (by rw [hj, (Prod.mk.inj heq).2]; exact lt_irrefl _)
        · exact absurd hlt (by rw [hj]; exact (hhead _ _ ha).not_gt)
      · rcases List.mem_cons.mp ha with heq | ha
        · obtain ⟨rfl, hi⟩ := Prod.mk.inj heq
          exact .inl ⟨hi, b, hrest, hoverlaps⟩
        · exact .inr ⟨hlt, a', b, ha, hrest, hoverlaps⟩

/-- Pairs are listed in lexicographic order. -/
theorem pairwise_overlappingPairs (h : Numbered regions) :
    (overlappingPairs regions).Pairwise fun p q => toLex p < toLex q := by
  induction regions with
  | nil => exact .nil
  | cons r rest ih =>
    obtain ⟨a, i⟩ := r
    rw [overlappingPairs, List.pairwise_append]
    refine ⟨?_, ih h.of_cons, ?_⟩
    · rw [overlapsAfter, List.pairwise_map]
      refine (h.of_cons.filter _).imp ?_
      intro r r' hlt
      exact Prod.Lex.toLex_lt_toLex.mpr (.inr ⟨rfl, hlt⟩)
    · intro p hp q hq
      obtain ⟨hi, -⟩ := mem_overlapsAfter.mp hp
      obtain ⟨-, b, -, hb, -⟩ := (mem_overlappingPairs h.of_cons).mp hq
      have hlt : i < q.1 := List.rel_of_pairwise_cons h hb
      exact Prod.Lex.toLex_lt_toLex.mpr (.inl (hi ▸ hlt))

/-- A last region that overlaps none before it is in no pair. -/
theorem overlappingPairs_append {b : Region} {j : Nat}
    (h : ∀ r ∈ regions, r.1.overlaps b = false) :
    overlappingPairs (regions ++ [(b, j)]) = overlappingPairs regions := by
  induction regions with
  | nil => rfl
  | cons r rest ih =>
    obtain ⟨a, i⟩ := r
    rw [List.forall_mem_cons] at h
    have hlast : overlapsAfter a i (rest ++ [(b, j)]) = overlapsAfter a i rest := by
      simp [overlapsAfter, h.1]
    rw [List.cons_append, overlappingPairs, overlappingPairs, hlast, ih h.2]

end Pairs

section Domains

variable {domains : List Region} {i j : Nat}

/-- The pairs listed for regions that can be built are those that share a real. -/
theorem mem_overlappingPairs_zipIdx (h : ∀ r ∈ domains, r.Reachable) :
    (i, j) ∈ overlappingPairs domains.zipIdx ↔ i < j ∧ Overlapping domains i j := by
  rw [mem_overlappingPairs (numbered_zipIdx domains)]
  simp only [List.mk_mem_zipIdx_iff_getElem?]
  refine and_congr_right fun _ => exists_congr fun a => exists_congr fun b => ?_
  refine and_congr_right fun ha => and_congr_right fun hb => ?_
  exact Region.overlaps_iff (h a (List.mem_of_getElem? ha)) (h b (List.mem_of_getElem? hb))

theorem overlappingPairs_eq_nil_iff (h : ∀ r ∈ domains, r.Reachable) :
    overlappingPairs domains.zipIdx = [] ↔ ∀ i j, i < j → ¬ Overlapping domains i j := by
  rw [List.eq_nil_iff_forall_not_mem, Prod.forall]
  refine forall₂_congr fun i j => ?_
  rw [mem_overlappingPairs_zipIdx h, not_and]

/-- What regions leave overlaps none of them. -/
theorem overlappingPairs_otherwise (h : ∀ r ∈ domains, r.Reachable) :
    overlappingPairs (domains ++ [(Region.unions domains).compl]).zipIdx =
      overlappingPairs domains.zipIdx := by
  rw [List.zipIdx_append]
  apply overlappingPairs_append
  rintro ⟨r, k⟩ hr
  have hmem : r ∈ domains :=
    List.mem_of_getElem? (List.mk_mem_zipIdx_iff_getElem?.mp hr)
  have hunions : (Region.unions domains).Reachable := .unions h
  have hsubset : r.reals ⊆ (Region.unions domains).reals := by
    rw [Region.reals_unions h]
    exact Set.subset_biUnion_of_mem hmem
  rw [← Bool.not_eq_true, Region.overlaps_iff (h r hmem) hunions.compl,
    Region.reals_compl hunions, ← Set.not_disjoint_iff_nonempty_inter, not_not]
  exact Set.disjoint_compl_right_iff_subset.mpr hsubset

end Domains

/-! ## Assembling -/

namespace Piecewise

variable {domains : List Region} {values : List (Float → Float)} {f : Piecewise}

theorem ofDisjoint_eq_ok_iff {hasOtherwise : Bool} :
    ofDisjoint domains values hasOtherwise = .ok f ↔
      overlappingPairs domains.zipIdx = [] ∧
        f = ⟨List.zipWith Branch.mk domains values, hasOtherwise⟩ := by
  unfold ofDisjoint
  split
  next hpairs => rw [Except.ok.injEq, eq_comm, and_iff_right hpairs]
  next hpairs => exact iff_of_false nofun fun h => hpairs h.1

theorem ofDisjoint_eq_error_iff {hasOtherwise : Bool} {e : AssemblyError} :
    ofDisjoint domains values hasOtherwise = .error e ↔
      overlappingPairs domains.zipIdx ≠ [] ∧
        e = .overlapping (overlappingPairs domains.zipIdx) := by
  unfold ofDisjoint
  split
  next hpairs => exact iff_of_false nofun fun h => h.1 hpairs
  next hpairs => rw [Except.error.injEq, eq_comm, and_iff_right hpairs]

/-- Functions fit regions when there is one for each, or one more. -/
def Fits (domains : List Region) (values : List (Float → Float)) : Prop :=
  values.length = domains.length ∨ values.length = domains.length + 1

theorem assemble_of_eq_nil (h : values = []) : assemble domains values = .error .noValues := by
  rw [assemble, h]
  rfl

theorem assemble_of_not_fits (h : values ≠ []) (hfits : ¬ Fits domains values) :
    assemble domains values = .error (.countMismatch domains.length values.length) := by
  rw [Fits, not_or] at hfits
  rw [assemble, if_neg (by simpa using h), if_neg hfits.1, if_neg hfits.2]

theorem assemble_of_length_eq (h : values ≠ []) (hlength : values.length = domains.length) :
    assemble domains values = ofDisjoint domains values false := by
  rw [assemble, if_neg (by simpa using h), if_pos hlength]

theorem assemble_of_length_eq_succ (hlength : values.length = domains.length + 1) :
    assemble domains values =
      ofDisjoint (domains ++ [(Region.unions domains).compl]) values true := by
  have h : values ≠ [] := List.ne_nil_of_length_eq_add_one hlength
  rw [assemble, if_neg (by simpa using h), if_neg (by omega), if_pos hlength]

/-- Where the counts fit only overlapping regions are refused, and the region for all that the
others leave is never one of them. -/
theorem assemble_of_fits (hdomains : ∀ r ∈ domains, r.Reachable) (h : values ≠ [])
    (hfits : Fits domains values) :
    (overlappingPairs domains.zipIdx = [] ∧ ∃ f, assemble domains values = .ok f) ∨
      (overlappingPairs domains.zipIdx ≠ [] ∧
        assemble domains values = .error (.overlapping (overlappingPairs domains.zipIdx))) := by
  have hotherwise := overlappingPairs_otherwise hdomains
  rcases hfits with hlength | hlength
  · rw [assemble_of_length_eq h hlength]
    by_cases hpairs : overlappingPairs domains.zipIdx = []
    · exact .inl ⟨hpairs, _, ofDisjoint_eq_ok_iff.mpr ⟨hpairs, rfl⟩⟩
    · exact .inr ⟨hpairs, ofDisjoint_eq_error_iff.mpr ⟨hpairs, rfl⟩⟩
  · rw [assemble_of_length_eq_succ hlength]
    by_cases hpairs : overlappingPairs domains.zipIdx = []
    · refine .inl ⟨hpairs, _, ofDisjoint_eq_ok_iff.mpr ⟨?_, rfl⟩⟩
      rw [hotherwise, hpairs]
    · refine .inr ⟨hpairs, ofDisjoint_eq_error_iff.mpr ?_⟩
      rw [hotherwise]
      exact ⟨hpairs, rfl⟩

/-- What is listed are all the pairs that share a real, each once, in lexicographic order, and
none of them names the place behind the regions. -/
theorem listed_pairs (hdomains : ∀ r ∈ domains, r.Reachable) :
    (∀ i j, (i, j) ∈ overlappingPairs domains.zipIdx ↔ i < j ∧ Overlapping domains i j) ∧
      (overlappingPairs domains.zipIdx).Nodup ∧
        (overlappingPairs domains.zipIdx).Pairwise (fun p q => toLex p < toLex q) ∧
          ∀ p ∈ overlappingPairs domains.zipIdx, p.1 ≠ domains.length ∧ p.2 ≠ domains.length := by
  have hsorted := pairwise_overlappingPairs (numbered_zipIdx domains)
  refine ⟨fun i j => mem_overlappingPairs_zipIdx hdomains, ?_, hsorted, ?_⟩
  · refine hsorted.imp ?_
    rintro p _ hlt rfl
    exact lt_irrefl _ hlt
  · rintro ⟨i, j⟩ hp
    obtain ⟨-, a, b, ha, hb, -⟩ := (mem_overlappingPairs_zipIdx hdomains).mp hp
    exact ⟨(List.getElem?_eq_some_iff.mp ha).1.ne, (List.getElem?_eq_some_iff.mp hb).1.ne⟩

/-- **Validation is exact.** Without functions, with a wrong number of them and with regions
that share a real there is an error of its own each time, in this order, and there is no other.
The pairs of an overlap are all those that share a real, each once, in lexicographic order, and
none of them names the place behind the given regions. -/
theorem assemble_outcome (hdomains : ∀ r ∈ domains, r.Reachable) :
    (assemble domains values = .error .noValues ↔ values = []) ∧
    (∀ m n, assemble domains values = .error (.countMismatch m n) ↔
      (values ≠ [] ∧ values.length ≠ domains.length ∧ values.length ≠ domains.length + 1) ∧
        m = domains.length ∧ n = values.length) ∧
    ((∃ pairs, assemble domains values = .error (.overlapping pairs)) ↔
      values ≠ [] ∧ Fits domains values ∧ ∃ i j, i < j ∧ Overlapping domains i j) ∧
    (∀ pairs, assemble domains values = .error (.overlapping pairs) →
      (∀ i j, (i, j) ∈ pairs ↔ i < j ∧ Overlapping domains i j) ∧ pairs.Nodup ∧
        pairs.Pairwise (fun p q => toLex p < toLex q) ∧
          ∀ p ∈ pairs, p.1 ≠ domains.length ∧ p.2 ≠ domains.length) ∧
    ((∃ f, assemble domains values = .ok f) ↔
      values ≠ [] ∧ Fits domains values ∧ ∀ i j, i < j → ¬ Overlapping domains i j) := by
  have hnone := overlappingPairs_eq_nil_iff hdomains
  have hsome : overlappingPairs domains.zipIdx ≠ [] ↔ ∃ i j, i < j ∧ Overlapping domains i j := by
    rw [ne_eq, hnone]
    push Not
    rfl
  have hcount : values.length ≠ domains.length ∧ values.length ≠ domains.length + 1 ↔
      ¬ Fits domains values := not_or.symm
  rw [← hsome, ← hnone, hcount]
  -- one outcome in each case, of which the parts about the other outcomes are void
  by_cases hempty : values = []
  · subst hempty
    have he : assemble domains [] = .error .noValues := assemble_of_eq_nil rfl
    simp [he]
  · by_cases hfits : Fits domains values
    · rcases assemble_of_fits hdomains hempty hfits with ⟨hpairs, f, hf⟩ | ⟨hpairs, he⟩
      · simp [hf, hempty, hfits, hpairs]
      · have hlisted := listed_pairs hdomains
        refine ⟨?_, ?_, ?_, ?_, ?_⟩
        · simp [he, hempty]
        · simp [he, hfits]
        · simp [he, hempty, hfits, hpairs]
        · intro pairs h
          rw [he] at h
          cases h
          exact hlisted
        · simp [he, hpairs]
    · have he := assemble_of_not_fits hempty hfits
      refine ⟨?_, ?_, ?_, ?_, ?_⟩
      · simp [he, hempty]
      · intro m n
        rw [he]
        constructor
        · intro h
          cases h
          exact ⟨⟨hempty, hfits⟩, rfl, rfl⟩
        · rintro ⟨-, rfl, rfl⟩
          rfl
      · simp [he, hfits]
      · simp [he]
      · simp [he, hfits]

/-- Four regions of which three pairs overlap, with a function more than there are regions. -/
theorem assemble_outcome_three_pairs :
    ∃ pairs, assemble
        [.ofBounds .included 0 10 .included, .point 5, .ofBounds .excluded 20 30 .excluded,
          .ofBounds .included 9 25 .included] [id, id, id, id, id] = .error (.overlapping pairs) ∧
      pairs = [(0, 1), (0, 3), (2, 3)] ∧ pairs.Nodup ∧
        pairs.Pairwise (fun p q => toLex p < toLex q) ∧ ∀ p ∈ pairs, p.1 ≠ 4 ∧ p.2 ≠ 4 := by
  have hdomains : ∀ r ∈ [Region.ofBounds .included 0 10 .included, .point 5,
      .ofBounds .excluded 20 30 .excluded, .ofBounds .included 9 25 .included], r.Reachable := by
    simp only [List.forall_mem_cons]
    exact ⟨.ofBounds _ _ _ _, .ofBounds _ _ _ _, .ofBounds _ _ _ _, .ofBounds _ _ _ _, nofun⟩
  have he : assemble
      [.ofBounds .included 0 10 .included, .point 5, .ofBounds .excluded 20 30 .excluded,
        .ofBounds .included 9 25 .included] [id, id, id, id, id] =
      .error (.overlapping [(0, 1), (0, 3), (2, 3)]) := rfl
  obtain ⟨-, -, -, hlisted, -⟩ := assemble_outcome hdomains
  obtain ⟨-, hnodup, hsorted, hlength⟩ := hlisted _ he
  exact ⟨_, he, rfl, hnodup, hsorted, hlength⟩

/-- The two shapes of an assembled function: a branch for each region, and perhaps one for what
the regions leave. -/
theorem of_assemble (h : assemble domains values = .ok f) :
    (values.length = domains.length ∧ overlappingPairs domains.zipIdx = [] ∧
        f = ⟨List.zipWith Branch.mk domains values, false⟩) ∨
      (values.length = domains.length + 1 ∧
        overlappingPairs (domains ++ [(Region.unions domains).compl]).zipIdx = [] ∧
          f = ⟨List.zipWith Branch.mk (domains ++ [(Region.unions domains).compl]) values,
            true⟩) := by
  by_cases hempty : values = []
  · rw [assemble_of_eq_nil hempty] at h
    cases h
  · by_cases hfits : Fits domains values
    · rcases hfits with hlength | hlength
      · rw [assemble_of_length_eq hempty hlength] at h
        exact .inl ⟨hlength, ofDisjoint_eq_ok_iff.mp h⟩
      · rw [assemble_of_length_eq_succ hlength] at h
        exact .inr ⟨hlength, ofDisjoint_eq_ok_iff.mp h⟩
    · rw [assemble_of_not_fits hempty hfits] at h
      cases h

theorem map_domain_zipWith (h : values.length = domains.length) :
    (List.zipWith Branch.mk domains values).map Branch.domain = domains := by
  rw [← List.map_uncurry_zip_eq_zipWith, List.map_map]
  exact List.map_fst_zip h.ge

theorem map_value_zipWith (h : values.length = domains.length) :
    (List.zipWith Branch.mk domains values).map Branch.value = values := by
  rw [← List.map_uncurry_zip_eq_zipWith, List.map_map]
  exact List.map_snd_zip h.le

/-! ## Assembled functions -/

/-- What is known of an assembled function: its branches carry the functions in order, and their
regions are the given ones, perhaps with what these leave, of which no two share a real. -/
structure Assembled (domains : List Region) (values : List (Float → Float)) (f : Piecewise) :
    Prop where
  values_eq : f.branches.map Branch.value = values
  domains_eq : f.domains = domains ∧ f.hasOtherwise = false ∧ values.length = domains.length ∨
    f.domains = domains ++ [(Region.unions domains).compl] ∧ f.hasOtherwise = true ∧
      values.length = domains.length + 1
  reachable : ∀ r ∈ f.domains, r.Reachable
  disjoint : ∀ i j, i < j → ¬ Overlapping f.domains i j

/-- Assembling keeps the functions in order, and the regions with them; what is added for the rest
is apart from all of these. -/
theorem assembled_of_assemble (hdomains : ∀ r ∈ domains, r.Reachable)
    (h : assemble domains values = .ok f) : Assembled domains values f := by
  rcases of_assemble h with ⟨hlength, hpairs, rfl⟩ | ⟨hlength, hpairs, rfl⟩
  · have hbranches := map_domain_zipWith hlength
    refine ⟨map_value_zipWith hlength, .inl ⟨hbranches, rfl, hlength⟩, ?_, ?_⟩
    · rwa [Piecewise.domains, hbranches]
    · rwa [Piecewise.domains, hbranches, ← overlappingPairs_eq_nil_iff hdomains]
  · have hall : ∀ r ∈ domains ++ [(Region.unions domains).compl], r.Reachable := by
      rw [List.forall_mem_append, List.forall_mem_singleton]
      exact ⟨hdomains, .compl (.unions hdomains)⟩
    have hlength' : values.length = (domains ++ [(Region.unions domains).compl]).length := by
      rw [hlength, List.length_append, List.length_singleton]
    have hbranches := map_domain_zipWith hlength'
    refine ⟨map_value_zipWith hlength', .inr ⟨hbranches, rfl, hlength⟩, ?_, ?_⟩
    · rwa [Piecewise.domains, hbranches]
    · rwa [Piecewise.domains, hbranches, ← overlappingPairs_eq_nil_iff hall]

namespace Assembled

variable (h : Assembled domains values f)
include h

/-- Branches at different places share no real. -/
theorem disjoint_of_ne {i j : Nat} {a b : Region} (hij : i ≠ j) (ha : f.domains[i]? = some a)
    (hb : f.domains[j]? = some b) : Disjoint a.reals b.reals := by
  by_contra hshare
  rw [Set.not_disjoint_iff_nonempty_inter] at hshare
  rcases lt_or_gt_of_ne hij with hlt | hgt
  · exact h.disjoint i j hlt ⟨a, b, ha, hb, hshare⟩
  · exact h.disjoint j i hgt ⟨b, a, hb, ha, Set.inter_comm _ _ ▸ hshare⟩

theorem place_unique {x : ℝ} {i j : Nat} {a b : Region} (ha : f.domains[i]? = some a)
    (hxa : x ∈ a.reals) (hb : f.domains[j]? = some b) (hxb : x ∈ b.reals) : i = j := by
  by_contra hij
  exact Set.disjoint_left.mp (h.disjoint_of_ne hij ha hb) hxa hxb

/-- A finite double is in a region when its real is. -/
theorem mem_iff {v : Float} (hv : v.isFinite = true) {i : Nat} :
    (∃ a, f.domains[i]? = some a ∧ v ∈ a) ↔ ∃ a, f.domains[i]? = some a ∧ toReal v ∈ a.reals := by
  refine exists_congr fun a => and_congr_right fun ha => ?_
  exact Region.mem_iff_toReal_mem (h.reachable a (List.mem_of_getElem? ha)) hv

/-- With a branch for all that the others leave each real lies in one region. -/
theorem existsUnique_place (hdomains : ∀ r ∈ domains, r.Reachable)
    (hall : f.domains = domains ++ [(Region.unions domains).compl]) (x : ℝ) :
    ∃! i : Nat, ∃ a : Region, f.domains[i]? = some a ∧ x ∈ a.reals := by
  have hcover : ∃ a ∈ f.domains, x ∈ a.reals := by
    rw [hall]
    by_cases hx : x ∈ (Region.unions domains).reals
    · rw [Region.reals_unions hdomains] at hx
      obtain ⟨a, ha, hx⟩ := Set.mem_iUnion₂.mp hx
      exact ⟨a, List.mem_append_left _ ha, hx⟩
    · refine ⟨_, List.mem_append_right _ (List.mem_singleton_self _), ?_⟩
      rwa [Region.reals_compl (.unions hdomains)]
  obtain ⟨a, ha, hx⟩ := hcover
  obtain ⟨i, hi⟩ := List.mem_iff_getElem?.mp ha
  -- regions at two places that hold the real would share it
  refine ⟨i, ⟨a, hi, hx⟩, ?_⟩
  rintro j ⟨b, hj, hxb⟩
  exact h.place_unique hj hxb hi hx

end Assembled

theorem evaluate_eq_none_iff {v : Float} : f.evaluate v = none ↔ ∀ a ∈ f.domains, v ∉ a := by
  rw [evaluate, Option.map_eq_none_iff, branchAt, List.find?_eq_none, domains, List.forall_mem_map]
  rfl

/-- The value at an argument is the one of the only branch that holds it. -/
theorem Assembled.evaluate_eq (h : Assembled domains values f) {i : Nat} {b : Branch}
    (hb : f.branches[i]? = some b) {v : Float} (hv : v ∈ b.domain) :
    f.evaluate v = some (b.value v) := by
  have hdomain {j : Nat} {b : Branch} (hb : f.branches[j]? = some b) :
      f.domains[j]? = some b.domain := by
    rw [Piecewise.domains, List.getElem?_map, hb, Option.map_some]
  have hreachable := h.reachable b.domain (List.mem_of_getElem? (hdomain hb))
  have hfinite : v.isFinite = true := by
    by_contra hfinite
    rw [Bool.not_eq_true] at hfinite
    exact Region.not_mem_of_not_isFinite hreachable hfinite hv
  cases hfind : f.branchAt v with
  | none =>
    rw [branchAt, List.find?_eq_none] at hfind
    exact absurd hv (hfind b (List.mem_of_getElem? hb))
  | some b' =>
    obtain ⟨hv', j, hj, hb', -⟩ := List.find?_eq_some_iff_getElem.mp hfind
    have hj' : f.branches[j]? = some b' := by rw [List.getElem?_eq_getElem hj, hb']
    have hreachable' := h.reachable b'.domain (List.mem_of_getElem? (hdomain hj'))
    obtain rfl : i = j := h.place_unique (hdomain hb)
      ((Region.mem_iff_toReal_mem hreachable hfinite).mp hv) (hdomain hj')
      ((Region.mem_iff_toReal_mem hreachable' hfinite).mp hv')
    rw [evaluate, hfind, Option.map_some, Option.some.inj (hb.symm.trans hj')]

/-- **Branches divide the line.** Each branch carries its region and its function, no two share
a real, and no double but the finite ones lies in any. With one function more than there are
regions every real and every finite double lies in one branch; with as many as there are
regions there is no value exactly where there is no region. -/
theorem partition_of_assemble (hdomains : ∀ r ∈ domains, r.Reachable)
    (h : assemble domains values = .ok f) :
    f.branches.map Branch.value = values ∧
    (∀ (i : Nat) (a : Region), domains[i]? = some a → f.domains[i]? = some a) ∧
    (∀ (i j : Nat) (a b : Region), i ≠ j → f.domains[i]? = some a → f.domains[j]? = some b →
      Disjoint a.reals b.reals) ∧
    (∀ (i : Nat) (b : Branch) (v : Float), f.branches[i]? = some b → v ∈ b.domain →
      f.evaluate v = some (b.value v)) ∧
    (values.length = domains.length + 1 →
      f.hasOtherwise = true ∧ f.domains = domains ++ [(Region.unions domains).compl] ∧
      (∀ x : ℝ, ∃! i : Nat, ∃ a : Region, f.domains[i]? = some a ∧ x ∈ a.reals) ∧
      ∀ v : Float, v.isFinite = true →
        (∃! i : Nat, ∃ a : Region, f.domains[i]? = some a ∧ v ∈ a) ∧ (f.evaluate v).isSome = true) ∧
    (values.length = domains.length →
      f.hasOtherwise = false ∧ f.domains = domains ∧
      ∀ v : Float, f.evaluate v = none ↔ ∀ r ∈ domains, v ∉ r) ∧
    ∀ v : Float, v.isFinite = false → ∀ a ∈ f.domains, v ∉ a := by
  have hf := assembled_of_assemble hdomains h
  refine ⟨hf.values_eq, ?_, ?_, ?_, ?_, ?_, ?_⟩
  · intro i a ha
    rcases hf.domains_eq with ⟨heq, -⟩ | ⟨heq, -⟩
    · rwa [heq]
    · rw [heq]
      exact (List.getElem?_append_left (List.getElem?_eq_some_iff.mp ha).1).trans ha
  · intro i j a b
    exact hf.disjoint_of_ne
  · intro i b v hb hv
    exact hf.evaluate_eq hb hv
  · intro hlength
    rcases hf.domains_eq with ⟨-, -, hequal⟩ | ⟨heq, hotherwise, -⟩
    · omega
    · refine ⟨hotherwise, heq, hf.existsUnique_place hdomains heq, ?_⟩
      intro v hv
      have hplace := hf.existsUnique_place hdomains heq (toReal v)
      simp only [← hf.mem_iff hv] at hplace
      refine ⟨hplace, ?_⟩
      obtain ⟨i, a, ha, hmem⟩ := hplace.exists
      rw [Option.isSome_iff_ne_none, ne_eq, evaluate_eq_none_iff]
      exact fun hnone => hnone a (List.mem_of_getElem? ha) hmem
  · intro hlength
    rcases hf.domains_eq with ⟨heq, hotherwise, -⟩ | ⟨-, -, hmore⟩
    · refine ⟨hotherwise, heq, ?_⟩
      intro v
      rw [evaluate_eq_none_iff, heq]
    · omega
  · intro v hv a ha
    exact Region.not_mem_of_not_isFinite (hf.reachable a ha) hv

/-- Two regions that touch, and a branch for all that they leave. -/
theorem partition_of_assemble_touching :
    ∃ f, assemble [.ofBounds .included 0 1 .excluded, .ofBounds .included 1 2 .included]
        [id, id, id] = .ok f ∧
      f.hasOtherwise = true ∧
      (∀ x : ℝ, ∃! i : Nat, ∃ a : Region, f.domains[i]? = some a ∧ x ∈ a.reals) ∧
      ∀ v : Float, v.isFinite = true → (f.evaluate v).isSome = true := by
  have hdomains : ∀ r ∈ [Region.ofBounds .included 0 1 .excluded,
      .ofBounds .included 1 2 .included], r.Reachable := by
    simp only [List.forall_mem_cons]
    exact ⟨.ofBounds _ _ _ _, .ofBounds _ _ _ _, nofun⟩
  have hok : ∃ f, assemble [.ofBounds .included 0 1 .excluded, .ofBounds .included 1 2 .included]
      [id, id, id] = .ok f := ⟨_, rfl⟩
  obtain ⟨f, hf⟩ := hok
  refine ⟨f, hf, ?_⟩
  obtain ⟨-, -, -, -, hotherwise, -, -⟩ := partition_of_assemble hdomains hf
  obtain ⟨htrue, -, hplace, hvalue⟩ := hotherwise rfl
  exact ⟨htrue, hplace, fun v hv => (hvalue v hv).2⟩

end Piecewise

end PiecewiseLinear
