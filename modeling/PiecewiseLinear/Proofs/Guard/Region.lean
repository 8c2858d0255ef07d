import PiecewiseLinear.Proofs.Guard.Comparison
import PiecewiseLinear.Proofs.Region.Canonical

/-!
# Regions of guards

- `Guard.Admitted`: the guards that have a region.
- `Guard.induction`: induction over a guard and all that it joins.
- `Region.combine`: combining regions from the left by intersections or unions.
- `Guard.region_correct`: a guard has a region exactly when it is admitted, and the region
  holds the finite doubles at which the guard holds.
-/

namespace PiecewiseLinear

/-- Guards without a part that is not supported, all of whose comparisons have one of the
admitted forms. -/
inductive Guard.Admitted : Guard → Prop where
  | all {children : List Guard} : (∀ g ∈ children, Admitted g) → Admitted (.all children)
  | any {children : List Guard} : (∀ g ∈ children, Admitted g) → Admitted (.any children)
  | compare {comparison : Comparison} : comparison.Admitted → Admitted (.compare comparison)

/-! ## Combining regions -/

namespace Region

variable {a : Region} {regions : List Region}

/-- Combining reachable regions one by one leads to a reachable one if the operation does. -/
theorem reachable_combine {op : Region → Region → Region}
    (hop : ∀ {a b : Region}, a.Reachable → b.Reachable → (op a b).Reachable)
    (h : ∀ r ∈ regions, r.Reachable) : (combine op regions).Reachable := by
  cases regions with
  | nil => exact .empty
  | cons a rest =>
    rw [List.forall_mem_cons] at h
    exact reachable_foldl hop h.1 h.2

theorem mem_reals_foldl_inter (ha : a.Reachable) (h : ∀ r ∈ regions, r.Reachable) {x : ℝ} :
    x ∈ (regions.foldl inter a).reals ↔ x ∈ a.reals ∧ ∀ r ∈ regions, x ∈ r.reals := by
  induction regions generalizing a with
  | nil => simp
  | cons b rest ih =>
    rw [List.forall_mem_cons] at h
    rw [List.foldl_cons, ih (ha.inter h.1) h.2, reals_inter ha h.1, Set.mem_inter_iff,
      List.forall_mem_cons, and_assoc]

/-- Intersecting nothing gives the empty region. -/
theorem mem_reals_combine_inter (h : ∀ r ∈ regions, r.Reachable) {x : ℝ} :
    x ∈ (combine inter regions).reals ↔ regions ≠ [] ∧ ∀ r ∈ regions, x ∈ r.reals := by
  cases regions with
  | nil => simp [combine, reals_empty]
  | cons a rest =>
    rw [List.forall_mem_cons] at h
    rw [List.forall_mem_cons, combine, mem_reals_foldl_inter h.1 h.2]
    simp

theorem mem_reals_combine_union (h : ∀ r ∈ regions, r.Reachable) {x : ℝ} :
    x ∈ (combine union regions).reals ↔ ∃ r ∈ regions, x ∈ r.reals := by
  cases regions with
  | nil => simp [combine, reals_empty]
  | cons a rest =>
    rw [List.forall_mem_cons] at h
    rw [List.exists_mem_cons_iff, combine, reals_foldl_union h.1 h.2]
    simp

theorem mem_combine_inter (h : ∀ r ∈ regions, r.Reachable) {x : Float}
    (hx : x.isFinite = true) :
    x ∈ combine inter regions ↔ regions ≠ [] ∧ ∀ r ∈ regions, x ∈ r := by
  rw [mem_iff_toReal_mem (reachable_combine .inter h) hx, mem_reals_combine_inter h]
  refine and_congr_right fun _ => forall₂_congr fun r hr => ?_
  rw [mem_iff_toReal_mem (h r hr) hx]

theorem mem_combine_union (h : ∀ r ∈ regions, r.Reachable) {x : Float}
    (hx : x.isFinite = true) : x ∈ combine union regions ↔ ∃ r ∈ regions, x ∈ r := by
  rw [mem_iff_toReal_mem (reachable_combine .union h) hx, mem_reals_combine_union h]
  refine exists_congr fun r => and_congr_right fun hr => ?_
  rw [mem_iff_toReal_mem (h r hr) hx]

end Region

namespace Guard

/-! ## Guards and what they join -/

/-- Induction over guards, where joined guards come before the guard that joins them. -/
theorem induction {motive : Guard → Prop}
    (all : ∀ children, (∀ g ∈ children, motive g) → motive (.all children))
    (any : ∀ children, (∀ g ∈ children, motive g) → motive (.any children))
    (compare : ∀ comparison, motive (.compare comparison))
    (unsupported : ∀ source, motive (.unsupported source)) (g : Guard) : motive g := by
  refine @Guard.rec motive (fun gs => ∀ g ∈ gs, motive g) all any compare unsupported nofun ?_ g
  intro g gs hg hgs
  exact List.forall_mem_cons.mpr ⟨hg, hgs⟩

theorem allHoldAt_iff {x : Float} {gs : List Guard} :
    allHoldAt x gs = true ↔ ∀ g ∈ gs, g.holdsAt x = true := by
  induction gs with
  | nil => exact iff_of_true rfl nofun
  | cons g gs ih => rw [allHoldAt, Bool.and_eq_true, ih, List.forall_mem_cons]

theorem anyHoldsAt_iff {x : Float} {gs : List Guard} :
    anyHoldsAt x gs = true ↔ ∃ g ∈ gs, g.holdsAt x = true := by
  induction gs with
  | nil => exact iff_of_false nofun nofun
  | cons g gs ih => rw [anyHoldsAt, Bool.or_eq_true, ih, List.exists_mem_cons_iff]

/-- Several guards are looked at one after another. -/
theorem regions_eq_mapM (gs : List Guard) : regions gs = gs.mapM region := by
  induction gs with
  | nil => rfl
  | cons g gs ih => rw [regions, List.mapM_cons, ih]

/-- Several guards have regions when each of them has one. -/
theorem regions_eq_ok_iff {gs : List Guard} {rs : List Region} :
    regions gs = .ok rs ↔ List.Forall₂ (fun g r => g.region = .ok r) gs rs := by
  rw [regions_eq_mapM, mapM_eq_ok_iff]

/-- Intersections are taken over the regions of all joined conditions. -/
theorem region_all_eq_ok_iff {children : List Guard} {r : Region} :
    (all children).region = .ok r ↔
      ∃ rs, regions children = .ok rs ∧ Region.combine .inter rs = r := by
  rw [region, bind_eq_ok_iff]
  simp only [pure_eq_ok_iff]

theorem region_any_eq_ok_iff {children : List Guard} {r : Region} :
    (any children).region = .ok r ↔
      ∃ rs, regions children = .ok rs ∧ Region.combine .union rs = r := by
  rw [region, bind_eq_ok_iff]
  simp only [pure_eq_ok_iff]

theorem region_compare_eq_ok_iff {c : Comparison} {r : Region} :
    (compare c).region = .ok r ↔ c.region? = .ok r := by
  rw [region, Comparison.region, mapError_eq_ok_iff]

/-! ## Acceptance and membership -/

/-- What a guard with a region is, and what its region holds. -/
structure HasRegion (g : Guard) (r : Region) : Prop where
  admitted : g.Admitted
  reachable : r.Reachable
  mem_iff : ∀ x : Float, x.isFinite = true → (x ∈ r ↔ g.holdsAt x = true)

section Joined

variable {children : List Guard} {rs : List Region} (h : List.Forall₂ HasRegion children rs)
include h

theorem admitted_of_forall₂ : ∀ g ∈ children, g.Admitted := by
  induction h with
  | nil => exact nofun
  | cons hg _ ih => exact List.forall_mem_cons.mpr ⟨hg.admitted, ih⟩

theorem reachable_of_forall₂ : ∀ r ∈ rs, r.Reachable := by
  induction h with
  | nil => exact nofun
  | cons hg _ ih => exact List.forall_mem_cons.mpr ⟨hg.reachable, ih⟩

theorem eq_nil_iff : rs = [] ↔ children = [] := by
  cases h with
  | nil => exact iff_of_true rfl rfl
  | cons => exact iff_of_false nofun nofun

end Joined

section Pairwise

variable {children : List Guard} {rs : List Region} {P : Region → Prop} {Q : Guard → Prop}
  (h : List.Forall₂ (fun g r => P r ↔ Q g) children rs)
include h

/-- What holds of each region when something holds of its guard, over several guards. -/
theorem forall_mem_congr : (∀ r ∈ rs, P r) ↔ ∀ g ∈ children, Q g := by
  induction h with
  | nil => exact iff_of_true nofun nofun
  | cons hg _ ih => rw [List.forall_mem_cons, List.forall_mem_cons, ih, hg]

theorem exists_mem_congr : (∃ r ∈ rs, P r) ↔ ∃ g ∈ children, Q g := by
  induction h with
  | nil => exact iff_of_false nofun nofun
  | cons hg _ ih => rw [List.exists_mem_cons_iff, List.exists_mem_cons_iff, ih, hg]

end Pairwise

/-- A conjunction has the intersection of the regions of its children, and holds there. -/
theorem hasRegion_all {children : List Guard} {rs : List Region}
    (h : List.Forall₂ HasRegion children rs) :
    HasRegion (all children) (Region.combine .inter rs) := by
  have hreachable := reachable_of_forall₂ h
  refine ⟨.all (admitted_of_forall₂ h), Region.reachable_combine .inter hreachable, ?_⟩
  intro x hx
  have hempty : rs ≠ [] ↔ (!children.isEmpty) = true := by
    rw [Ne, eq_nil_iff h, Bool.not_eq_true', List.isEmpty_eq_false_iff]
  have hall : (∀ r ∈ rs, x ∈ r) ↔ allHoldAt x children = true := by
    rw [forall_mem_congr (h.imp fun _ _ hg => hg.mem_iff x hx), allHoldAt_iff]
  rw [Region.mem_combine_inter hreachable hx, hempty, hall, holdsAt, Bool.and_eq_true]

/-- A disjunction has the union of the regions of its children, and holds there. -/
theorem hasRegion_any {children : List Guard} {rs : List Region}
    (h : List.Forall₂ HasRegion children rs) :
    HasRegion (any children) (Region.combine .union rs) := by
  have hreachable := reachable_of_forall₂ h
  refine ⟨.any (admitted_of_forall₂ h), Region.reachable_combine .union hreachable, ?_⟩
  intro x hx
  have hany : (∃ r ∈ rs, x ∈ r) ↔ anyHoldsAt x children = true := by
    rw [exists_mem_congr (h.imp fun _ _ hg => hg.mem_iff x hx), anyHoldsAt_iff]
  rw [Region.mem_combine_union hreachable hx, hany, holdsAt]

/-- Regions of joined conditions, each of which has what a region has to have. -/
theorem forall₂_hasRegion {children : List Guard} {rs : List Region}
    (ih : ∀ g ∈ children, ∀ r, g.region = .ok r → g.HasRegion r)
    (h : regions children = .ok rs) : List.Forall₂ HasRegion children rs := by
  rw [regions_eq_ok_iff] at h
  induction h with
  | nil => exact .nil
  | cons hg _ ih' =>
    rw [List.forall_mem_cons] at ih
    exact .cons (ih.1 _ hg) (ih' ih.2)

/-- Soundness, by induction over the guard. -/
theorem hasRegion {g : Guard} {r : Region} (h : g.region = .ok r) : g.HasRegion r := by
  induction g using induction generalizing r with
  | all children ih =>
    obtain ⟨rs, hrs, rfl⟩ := region_all_eq_ok_iff.mp h
    exact hasRegion_all (forall₂_hasRegion (fun g hg r => ih g hg) hrs)
  | any children ih =>
    obtain ⟨rs, hrs, rfl⟩ := region_any_eq_ok_iff.mp h
    exact hasRegion_any (forall₂_hasRegion (fun g hg r => ih g hg) hrs)
  | compare c =>
    have hc := Comparison.hasRegion (region_compare_eq_ok_iff.mp h)
    exact ⟨.compare hc.admitted, hc.reachable, hc.mem_iff⟩
  | unsupported source => cases h

/-- Guards have regions together if each of them has one. -/
theorem exists_regions {children : List Guard}
    (h : ∀ g ∈ children, ∃ r, g.region = .ok r) : ∃ rs, regions children = .ok rs := by
  simp only [regions_eq_ok_iff]
  induction children with
  | nil => exact ⟨[], .nil⟩
  | cons g gs ih =>
    rw [List.forall_mem_cons] at h
    obtain ⟨⟨r, hr⟩, hgs⟩ := h
    obtain ⟨rs, hrs⟩ := ih hgs
    exact ⟨r :: rs, .cons hr hrs⟩

/-- Every admitted guard has a region: no part of it is refused. -/
theorem Admitted.exists_region {g : Guard} (h : g.Admitted) : ∃ r, g.region = .ok r := by
  induction h with
  | all _ ih =>
    obtain ⟨rs, hrs⟩ := exists_regions ih
    exact ⟨_, region_all_eq_ok_iff.mpr ⟨rs, hrs, rfl⟩⟩
  | any _ ih =>
    obtain ⟨rs, hrs⟩ := exists_regions ih
    exact ⟨_, region_any_eq_ok_iff.mpr ⟨rs, hrs, rfl⟩⟩
  | compare hc =>
    obtain ⟨r, hr⟩ := hc.exists_region
    exact ⟨r, region_compare_eq_ok_iff.mpr hr⟩

end Guard

/-- Every refusal of a guard calls it malformed. -/
theorem GuardError.exists_message_eq (e : GuardError) :
    ∃ detail, e.message = "Malformed guard: " ++ detail := by
  cases e with
  | notComparison source =>
    refine ⟨"`" ++ source ++ "` is not a comparison or a boolean combination of comparisons", ?_⟩
    rw [← String.append_assoc, ← String.append_assoc]
    rfl
  | malformed comparison fault =>
    refine ⟨"`" ++ comparison ++ "`: " ++ fault.reason ++
      "; expected `x op c`, `c op x` or `c op x op c`", ?_⟩
    simp only [← String.append_assoc]
    rfl

/-- **Guards and their regions**: a guard has a region exactly when it is admitted, it is
refused as malformed otherwise, and its region holds the finite doubles at which it holds. -/
theorem Guard.region_correct (g : Guard) :
    ((∃ r, g.region = .ok r) ↔ g.Admitted) ∧
    (∀ e, g.region = .error e → ∃ detail, e.message = "Malformed guard: " ++ detail) ∧
    ∀ r, g.region = .ok r → ∀ x : Float, x.isFinite = true → (x ∈ r ↔ g.holdsAt x = true) := by
  refine ⟨⟨?_, ?_⟩, ?_, ?_⟩
  · rintro ⟨r, hr⟩
    have hregion := hasRegion hr
    exact hregion.admitted
  · intro hadmitted
    exact hadmitted.exists_region
  · intro e _
    exact e.exists_message_eq
  · intro r hr
    exact (hasRegion hr).mem_iff

/-- A chain that points down, with three signs in front of its last number. -/
theorem Guard.region_correct_between :
    ∃ r, (between (.constant 1) .ge .gt (.neg (.neg (.neg (.constant 1))))).region = .ok r ∧
      ∀ x : Float, x.isFinite = true →
        (x ∈ r ↔ (between (.constant 1) .ge .gt (.neg (.neg (.neg (.constant 1))))).holdsAt x) := by
  obtain ⟨hadmitted, -, hmem⟩ :=
    region_correct (between (.constant 1) .ge .gt (.neg (.neg (.neg (.constant 1)))))
  obtain ⟨r, hr⟩ := hadmitted.mpr
    (.compare (.between (.constant 1) (.neg (.neg (.neg (.constant 1)))) (.inr ⟨rfl, rfl⟩)))
  exact ⟨r, hr, hmem r hr⟩

end PiecewiseLinear
