import PiecewiseLinear.Proofs.Piecewise.Assembly

/-!
# The order of branches

Branches may be given in any order: the same functions come of them, the same region is left
for all other arguments, and the same branches are found to overlap.

- `reordered`, `origin`: a list in another order, and where its items come from.
- `Region.unions_eq_of_perm`: uniting regions in another order gives the same region.
- `unordered_overlappingPairs_perm`: regions overlap wherever they stand.
- `Piecewise.Assembled.evaluate_eq_of_perm`: values do not depend on the order of branches.
- `Piecewise.ofBranches_reordered`: assembling the same branches in another order.
-/

namespace PiecewiseLinear

/-! ## Lists in another order -/

section Order

variable {α : Type} {items : List α}

/-- The items of a list in another order: place `i` takes the item of place `σ i`. -/
def reordered (items : List α) (σ : Equiv.Perm (Fin items.length)) : List α :=
  List.ofFn fun i => items.get (σ i)

/-- The place that the item at a place comes from. Places behind the list stay what they are. -/
def origin {n : Nat} (σ : Equiv.Perm (Fin n)) : Equiv.Perm Nat :=
  σ.extendDomain Fin.equivSubtype

theorem origin_of_lt {n : Nat} (σ : Equiv.Perm (Fin n)) {i : Nat} (h : i < n) :
    origin σ i = σ ⟨i, h⟩ :=
  Equiv.Perm.extendDomain_apply_subtype σ Fin.equivSubtype h

theorem origin_of_le {n : Nat} (σ : Equiv.Perm (Fin n)) {i : Nat} (h : n ≤ i) :
    origin σ i = i :=
  Equiv.Perm.extendDomain_apply_not_subtype σ Fin.equivSubtype (Nat.not_lt.mpr h)

variable (σ : Equiv.Perm (Fin items.length))

theorem reordered_perm : (reordered items σ).Perm items := by
  have hperm := σ.ofFn_comp_perm items.get
  rwa [List.ofFn_get] at hperm

/-- An item of a reordered list is the one that comes from its origin. -/
theorem getElem?_reordered (i : Nat) : (reordered items σ)[i]? = items[origin σ i]? := by
  rw [reordered, List.getElem?_ofFn]
  split
  next hi =>
    rw [origin_of_lt σ hi]
    exact (List.getElem?_eq_getElem _).symm
  next hi =>
    rw [origin_of_le σ (Nat.not_lt.mp hi)]
    exact (List.getElem?_eq_none (Nat.not_lt.mp hi)).symm

end Order

theorem Region.unions_eq_of_perm {regions regions' : List Region}
    (h : ∀ r ∈ regions, r.Reachable) (hperm : regions'.Perm regions) :
    unions regions' = unions regions := by
  have h' : ∀ r ∈ regions', r.Reachable := fun r hr => h r (hperm.mem_iff.mp hr)
  rw [unions_eq_foldl h hperm, unions_eq_foldl h' (.refl regions')]

/-! ## Overlaps wherever regions stand -/

theorem overlapping_comm {domains : List Region} {i j : Nat} :
    Overlapping domains i j ↔ Overlapping domains j i := by
  constructor <;>
  · rintro ⟨a, b, ha, hb, hshare⟩
    exact ⟨b, a, hb, ha, Set.inter_comm _ _ ▸ hshare⟩

/-- Pairs of places, of which none comes first. -/
def unordered (pairs : List (Nat × Nat)) : List (Sym2 Nat) := pairs.map fun p => s(p.1, p.2)

section Overlaps

variable {domains domains' : List Region} (h : ∀ r ∈ domains, r.Reachable)
include h

/-- Two places are paired, in one order or the other, where their regions share a real. -/
theorem mem_unordered_overlappingPairs {i j : Nat} :
    s(i, j) ∈ unordered (overlappingPairs domains.zipIdx) ↔ i ≠ j ∧ Overlapping domains i j := by
  simp only [unordered, List.mem_map, Prod.exists, Sym2.eq_iff]
  constructor
  · rintro ⟨k, l, hmem, ⟨rfl, rfl⟩ | ⟨rfl, rfl⟩⟩
    · obtain ⟨hlt, hshare⟩ := (mem_overlappingPairs_zipIdx h).mp hmem
      exact ⟨hlt.ne, hshare⟩
    · obtain ⟨hlt, hshare⟩ := (mem_overlappingPairs_zipIdx h).mp hmem
      exact ⟨hlt.ne', overlapping_comm.mp hshare⟩
  · rintro ⟨hne, hshare⟩
    rcases lt_or_gt_of_ne hne with hlt | hgt
    · exact ⟨i, j, (mem_overlappingPairs_zipIdx h).mpr ⟨hlt, hshare⟩, .inl ⟨rfl, rfl⟩⟩
    · exact ⟨j, i, (mem_overlappingPairs_zipIdx h).mpr ⟨hgt, overlapping_comm.mp hshare⟩,
        .inr ⟨rfl, rfl⟩⟩

/-- No pair is listed twice, not even the other way round. -/
theorem nodup_unordered_overlappingPairs :
    (unordered (overlappingPairs domains.zipIdx)).Nodup := by
  have hsorted := pairwise_overlappingPairs (numbered_zipIdx domains)
  refine List.Nodup.map_on ?_ (hsorted.imp fun hlt heq => hlt.ne (congrArg toLex heq))
  rintro ⟨i, j⟩ hp ⟨k, l⟩ hq heq
  have hij := ((mem_overlappingPairs_zipIdx h).mp hp).1
  have hkl := ((mem_overlappingPairs_zipIdx h).mp hq).1
  rcases Sym2.eq_iff.mp heq with ⟨hik, hjl⟩ | ⟨hil, hjk⟩
  · exact Prod.ext hik hjl
  · exact absurd hij (by simp only at hil hjk; omega)

/-- Regions that stand at other places overlap at these places. -/
theorem unordered_overlappingPairs_perm {τ : Equiv.Perm Nat}
    (hplaces : ∀ i, domains'[i]? = domains[τ i]?) :
    ((unordered (overlappingPairs domains'.zipIdx)).map (Sym2.map τ)).Perm
      (unordered (overlappingPairs domains.zipIdx)) := by
  have h' : ∀ r ∈ domains', r.Reachable := by
    intro r hr
    obtain ⟨i, hi⟩ := List.mem_iff_getElem?.mp hr
    rw [hplaces] at hi
    exact h r (List.mem_of_getElem? hi)
  have hoverlapping (i j : Nat) : Overlapping domains' i j ↔ Overlapping domains (τ i) (τ j) := by
    unfold Overlapping
    rw [hplaces, hplaces]
  refine (List.perm_ext_iff_of_nodup ?_ (nodup_unordered_overlappingPairs h)).mpr ?_
  · exact (nodup_unordered_overlappingPairs h').map (Sym2.map.injective τ.injective)
  · intro z
    induction z with
    | _ k l =>
      -- the pair is the image of the pair that it comes from
      obtain ⟨i, rfl⟩ := τ.surjective k
      obtain ⟨j, rfl⟩ := τ.surjective l
      rw [← Sym2.map_mk, List.mem_map_of_injective (Sym2.map.injective τ.injective),
        mem_unordered_overlappingPairs h', Sym2.map_mk, mem_unordered_overlappingPairs h,
        hoverlapping, τ.injective.ne_iff]

theorem overlappingPairs_eq_nil_iff_of_perm {τ : Equiv.Perm Nat}
    (hplaces : ∀ i, domains'[i]? = domains[τ i]?) :
    overlappingPairs domains'.zipIdx = [] ↔ overlappingPairs domains.zipIdx = [] := by
  have hlength := (unordered_overlappingPairs_perm h hplaces).length_eq
  simp only [unordered, List.length_map] at hlength
  rw [← List.length_eq_zero_iff, hlength, List.length_eq_zero_iff]

end Overlaps

/-! ## Assembling branches -/

namespace Piecewise

variable {branches : List Branch} {otherwise : Option (Float → Float)} {f g : Piecewise}

/-- A piecewise function from branches, and perhaps a function for all that they leave. -/
def ofBranches (branches : List Branch) (otherwise : Option (Float → Float)) :
    Except AssemblyError Piecewise :=
  assemble (branches.map Branch.domain) (branches.map Branch.value ++ otherwise.toList)

/-- The branch for all that branches leave, if there is a function for it. -/
def otherwiseBranch (branches : List Branch) (otherwise : Option (Float → Float)) :
    Option Branch :=
  otherwise.map (Branch.mk (Region.unions (branches.map Branch.domain)).compl)

/-- The region of the branch for all that the others leave, if there is one. -/
def otherwiseDomain (f : Piecewise) : Option Region :=
  if f.hasOtherwise then f.domains.getLast? else none

theorem zipWith_mk_map (branches : List Branch) :
    List.zipWith Branch.mk (branches.map Branch.domain) (branches.map Branch.value) =
      branches := by
  rw [List.zipWith_map, List.zipWith_self]
  exact List.map_id branches

/-- Assembled branches are the given ones, with the one for all that they leave behind them. -/
theorem of_ofBranches (h : ofBranches branches otherwise = .ok f) :
    f = ⟨branches ++ (otherwiseBranch branches otherwise).toList, otherwise.isSome⟩ := by
  cases otherwise with
  | none =>
    rw [ofBranches, Option.toList_none, List.append_nil] at h
    rw [otherwiseBranch, Option.map_none, Option.toList_none, List.append_nil]
    rcases of_assemble h with ⟨-, -, rfl⟩ | ⟨hlength, -⟩
    · rw [zipWith_mk_map]
      rfl
    · rw [List.length_map, List.length_map] at hlength
      omega
  | some value =>
    rcases of_assemble h with ⟨hlength, -⟩ | ⟨-, -, rfl⟩
    · simp at hlength
    · rw [List.zipWith_append (by simp), zipWith_mk_map]
      rfl

/-- Only overlapping branches are refused, unless there is no function at all. -/
theorem ofBranches_cases (hbranches : ∀ b ∈ branches, b.domain.Reachable)
    (hvalues : branches.map Branch.value ++ otherwise.toList ≠ []) :
    (overlappingPairs (branches.map Branch.domain).zipIdx = [] ∧
        ∃ f, ofBranches branches otherwise = .ok f) ∨
      (overlappingPairs (branches.map Branch.domain).zipIdx ≠ [] ∧
        ofBranches branches otherwise =
          .error (.overlapping (overlappingPairs (branches.map Branch.domain).zipIdx))) := by
  refine assemble_of_fits (List.forall_mem_map.mpr hbranches) hvalues ?_
  cases otherwise with
  | none => exact .inl (by simp)
  | some value => exact .inr (by simp)

/-- Branches make a function if and only if there are some, with or without a value for the rest,
and no two of them overlap. -/
theorem exists_ofBranches_iff (hbranches : ∀ b ∈ branches, b.domain.Reachable) :
    (∃ f, ofBranches branches otherwise = .ok f) ↔
      branches.map Branch.value ++ otherwise.toList ≠ [] ∧
        overlappingPairs (branches.map Branch.domain).zipIdx = [] := by
  by_cases hvalues : branches.map Branch.value ++ otherwise.toList = []
  · rw [ofBranches, assemble_of_eq_nil hvalues]
    exact iff_of_false nofun fun h => h.1 hvalues
  · rcases ofBranches_cases hbranches hvalues with ⟨hpairs, hf⟩ | ⟨hpairs, he⟩
    · exact iff_of_true hf ⟨hvalues, hpairs⟩
    · rw [he]
      exact iff_of_false nofun fun h => hpairs h.2

/-- Branches are refused for an overlap exactly where there are branches and some of them overlap,
and with the pairs of these alone. -/
theorem ofBranches_eq_overlapping_iff (hbranches : ∀ b ∈ branches, b.domain.Reachable)
    {pairs : List (Nat × Nat)} :
    ofBranches branches otherwise = .error (.overlapping pairs) ↔
      (branches.map Branch.value ++ otherwise.toList ≠ [] ∧
        overlappingPairs (branches.map Branch.domain).zipIdx ≠ []) ∧
          pairs = overlappingPairs (branches.map Branch.domain).zipIdx := by
  by_cases hvalues : branches.map Branch.value ++ otherwise.toList = []
  · rw [ofBranches, assemble_of_eq_nil hvalues]
    exact iff_of_false nofun fun h => h.1.1 hvalues
  · rcases ofBranches_cases hbranches hvalues with ⟨hpairs, f, hf⟩ | ⟨hpairs, he⟩
    · rw [hf]
      exact iff_of_false nofun fun h => h.1.2 hpairs
    · rw [he, Except.error.injEq, AssemblyError.overlapping.injEq, eq_comm]
      exact (and_iff_right ⟨hvalues, hpairs⟩).symm

/-! ## Values -/

/-- Functions of the same branches have the same values: an argument lies in one branch at
most, wherever that stands. -/
theorem Assembled.evaluate_eq_of_perm {domains domains' : List Region}
    {values values' : List (Float → Float)} (hf : Assembled domains values f)
    (hg : Assembled domains' values' g) (hperm : g.branches.Perm f.branches) (v : Float) :
    g.evaluate v = f.evaluate v := by
  by_cases hmem : ∃ b ∈ f.branches, v ∈ b.domain
  · obtain ⟨b, hb, hv⟩ := hmem
    obtain ⟨i, hi⟩ := List.mem_iff_getElem?.mp hb
    obtain ⟨j, hj⟩ := List.mem_iff_getElem?.mp (hperm.mem_iff.mpr hb)
    rw [hf.evaluate_eq hi hv, hg.evaluate_eq hj hv]
  · push Not at hmem
    have hfnone : f.evaluate v = none := by
      rw [evaluate_eq_none_iff]
      exact List.forall_mem_map.mpr hmem
    have hgnone : g.evaluate v = none := by
      rw [evaluate_eq_none_iff]
      exact List.forall_mem_map.mpr fun b hb => hmem b (hperm.mem_iff.mp hb)
    rw [hfnone, hgnone]

theorem assembled_of_ofBranches (hbranches : ∀ b ∈ branches, b.domain.Reachable)
    (h : ofBranches branches otherwise = .ok f) :
    Assembled (branches.map Branch.domain) (branches.map Branch.value ++ otherwise.toList) f :=
  assembled_of_assemble (List.forall_mem_map.mpr hbranches) h

theorem otherwiseDomain_of_ofBranches (h : ofBranches branches otherwise = .ok f) :
    f.otherwiseDomain = (otherwiseBranch branches otherwise).map Branch.domain := by
  rw [of_ofBranches h]
  cases otherwise with
  | none => rfl
  | some value => simp [otherwiseDomain, otherwiseBranch, Piecewise.domains]

section Reordered

variable (hbranches : ∀ b ∈ branches, b.domain.Reachable)
  (σ : Equiv.Perm (Fin branches.length))
include hbranches

/-- In any order the branches leave the same region. -/
theorem otherwiseBranch_reordered (otherwise : Option (Float → Float)) :
    otherwiseBranch (reordered branches σ) otherwise = otherwiseBranch branches otherwise := by
  have hunions := Region.unions_eq_of_perm (List.forall_mem_map.mpr hbranches)
    ((reordered_perm σ).map Branch.domain)
  rw [otherwiseBranch, otherwiseBranch, hunions]

/-- **The order of branches does not matter.** Branches in another order are assembled when they
are assembled as given. The two functions have the same values, and the same region for all that
the branches leave. Where branches overlap, the same ones do, at the places where they stand. -/
theorem ofBranches_reordered :
    ((∃ g, ofBranches (reordered branches σ) otherwise = .ok g) ↔
      ∃ f, ofBranches branches otherwise = .ok f) ∧
    (∀ f g, ofBranches branches otherwise = .ok f →
      ofBranches (reordered branches σ) otherwise = .ok g →
        (∀ v, g.evaluate v = f.evaluate v) ∧ g.hasOtherwise = f.hasOtherwise ∧
          g.otherwiseDomain = f.otherwiseDomain) ∧
    ((∃ pairs', ofBranches (reordered branches σ) otherwise = .error (.overlapping pairs')) ↔
      ∃ pairs, ofBranches branches otherwise = .error (.overlapping pairs)) ∧
    ∀ pairs pairs', ofBranches branches otherwise = .error (.overlapping pairs) →
      ofBranches (reordered branches σ) otherwise = .error (.overlapping pairs') →
        ((unordered pairs').map (Sym2.map (origin σ))).Perm (unordered pairs) := by
  have hperm := reordered_perm σ
  have hreordered : ∀ b ∈ reordered branches σ, b.domain.Reachable :=
    fun b hb => hbranches b (hperm.mem_iff.mp hb)
  have hplaces (i : Nat) : ((reordered branches σ).map Branch.domain)[i]? =
      (branches.map Branch.domain)[origin σ i]? := by
    rw [List.getElem?_map, List.getElem?_map, getElem?_reordered]
  have hregions : ∀ r ∈ branches.map Branch.domain, r.Reachable := List.forall_mem_map.mpr hbranches
  have hvalues : (reordered branches σ).map Branch.value ++ otherwise.toList ≠ [] ↔
      branches.map Branch.value ++ otherwise.toList ≠ [] := by
    have hlength := ((hperm.map Branch.value).append_right otherwise.toList).length_eq
    rw [ne_eq, ← List.length_eq_zero_iff, hlength, List.length_eq_zero_iff]
  have hnil := overlappingPairs_eq_nil_iff_of_perm hregions hplaces
  refine ⟨?_, ?_, ?_, ?_⟩
  · rw [exists_ofBranches_iff hbranches, exists_ofBranches_iff hreordered, hvalues, hnil]
  · intro f g hf hg
    have hsame := otherwiseBranch_reordered hbranches σ otherwise
    refine ⟨?_, ?_, ?_⟩
    · have hbranch : g.branches.Perm f.branches := by
        rw [of_ofBranches hf, of_ofBranches hg, hsame]
        exact hperm.append_right _
      exact (assembled_of_ofBranches hbranches hf).evaluate_eq_of_perm
        (assembled_of_ofBranches hreordered hg) hbranch
    · rw [of_ofBranches hf, of_ofBranches hg]
    · rw [otherwiseDomain_of_ofBranches hf, otherwiseDomain_of_ofBranches hg, hsame]
  · simp only [ofBranches_eq_overlapping_iff hbranches, ofBranches_eq_overlapping_iff hreordered,
      exists_and_left, exists_eq, and_true]
    rw [hvalues, hnil.ne]
  · intro pairs pairs' hpairs hpairs'
    obtain ⟨-, rfl⟩ := (ofBranches_eq_overlapping_iff hbranches).mp hpairs
    obtain ⟨-, rfl⟩ := (ofBranches_eq_overlapping_iff hreordered).mp hpairs'
    exact unordered_overlappingPairs_perm hregions hplaces

end Reordered

/-- Three branches turned round by one place, of which the first and the last overlap. -/
theorem ofBranches_reordered_overlap :
    ∃ pairs', ofBranches (reordered [⟨.ofBounds .included 0 10 .included, id⟩, ⟨.point 20, id⟩,
        ⟨.ofBounds .excluded 9 15 .excluded, id⟩] (finRotate 3)) none =
        .error (.overlapping pairs') ∧
      ((unordered pairs').map (Sym2.map (origin (finRotate 3)))).Perm [s(0, 2)] := by
  have hbranches : ∀ b ∈ [(⟨.ofBounds .included 0 10 .included, id⟩ : Branch), ⟨.point 20, id⟩,
      ⟨.ofBounds .excluded 9 15 .excluded, id⟩], b.domain.Reachable := by
    simp only [List.forall_mem_cons]
    exact ⟨.ofBounds _ _ _ _, .ofBounds _ _ _ _, .ofBounds _ _ _ _, nofun⟩
  have he : ofBranches [⟨.ofBounds .included 0 10 .included, id⟩, ⟨.point 20, id⟩,
      ⟨.ofBounds .excluded 9 15 .excluded, id⟩] none = .error (.overlapping [(0, 2)]) := rfl
  obtain ⟨-, -, hfails, hpairs⟩ := ofBranches_reordered hbranches (finRotate 3)
  obtain ⟨pairs', he'⟩ := hfails.mpr ⟨_, he⟩
  exact ⟨pairs', he', hpairs _ _ he he'⟩

end Piecewise

end PiecewiseLinear
