import PiecewiseLinear.Proofs.Guard.Region

/-!
# Joining conditions to a guard

A guard is built by joining one condition after another to a first one, each by `and` or `or`.
A condition goes into the group of its connective where the guard is one already, and otherwise
the two form a new group.

- `Guard.join`, `Guard.joined`: one more condition, and any number of them.
- `Guard.region_join_eq_ok_iff`: what one step does to the region.
- `Guard.region_joined`: what any step of any sequence does to it.
- `Guard.region_joined_ne_inter`: a conjunction of nothing denotes the empty region, and yet a
  condition that is joined to it keeps its own.
-/

namespace PiecewiseLinear

/-- The operation on regions that a connective stands for. -/
def Connective.onRegions : Connective → Region → Region → Region
  | .and => .inter
  | .or => .union

namespace Region

theorem combine_concat {op : Region → Region → Region} {regions : List Region} (b : Region)
    (hne : regions ≠ []) : combine op (regions ++ [b]) = op (combine op regions) b := by
  obtain ⟨a, rest, rfl⟩ := List.exists_cons_of_ne_nil hne
  rw [List.cons_append, combine, combine, List.foldl_append]
  rfl

theorem empty_union {b : Region} (hb : b.Reachable) : empty.union b = b := by
  rw [eq_iff_reals_eq (.union .empty hb) hb, reals_union .empty hb, reals_empty, Set.empty_union]

end Region

namespace Guard

variable {g h : Guard} {connective : Connective} {r : Region}

/-- Conditions that a connective groups. -/
def group : Connective → List Guard → Guard
  | .and => all
  | .or => any

/-- One more condition joined to a guard. -/
def join (g : Guard) : Connective → Guard → Guard
  | .and => g.and
  | .or => g.or

/-- The guard after conditions have been joined to it one after another. -/
def joined (start : Guard) (steps : List (Connective × Guard)) : Guard :=
  steps.foldl (fun g step => g.join step.1 step.2) start

theorem joined_concat (start : Guard) (steps : List (Connective × Guard)) :
    start.joined (steps ++ [(connective, h)]) = (start.joined steps).join connective h := by
  rw [joined, List.foldl_append]
  rfl

/-! ## One step -/

/-- A condition goes into the group of its connective, or a new group is formed. -/
theorem join_cases (g : Guard) (connective : Connective) (h : Guard) :
    (∃ children, g = group connective children ∧
      g.join connective h = group connective (children ++ [h])) ∨
    g.join connective h = group connective [g, h] := by
  cases connective with
  | and =>
    cases g with
    | all children => exact .inl ⟨children, rfl, rfl⟩
    | any | compare | unsupported => exact .inr rfl
  | or =>
    cases g with
    | any children => exact .inl ⟨children, rfl, rfl⟩
    | all | compare | unsupported => exact .inr rfl

theorem join_ne_group_nil : g.join connective h ≠ .all [] := by
  rcases join_cases g connective h with ⟨children, -, heq⟩ | heq <;> rw [heq] <;>
    cases connective <;> simp [group]

theorem region_group_eq_ok_iff {children : List Guard} :
    (group connective children).region = .ok r ↔
      ∃ rs, regions children = .ok rs ∧ Region.combine connective.onRegions rs = r := by
  cases connective with
  | and => exact region_all_eq_ok_iff
  | or => exact region_any_eq_ok_iff

/-- A last condition is looked at behind the others. -/
theorem regions_concat_eq_ok_iff {children : List Guard} {rs : List Region} :
    regions (children ++ [h]) = .ok rs ↔
      ∃ as, regions children = .ok as ∧ ∃ b, h.region = .ok b ∧ as ++ [b] = rs := by
  simp only [regions_eq_mapM, List.mapM_append, List.mapM_cons, List.mapM_nil, bind_eq_ok_iff,
    pure_eq_ok_iff]
  refine exists_congr fun as => and_congr_right fun _ => ?_
  constructor
  · rintro ⟨_, ⟨b, hb, _, rfl, rfl⟩, rfl⟩
    exact ⟨b, hb, rfl⟩
  · rintro ⟨b, hb, rfl⟩
    exact ⟨[b], ⟨b, hb, [], rfl, rfl⟩, rfl⟩

/-- Several conditions have as many regions. -/
theorem ne_nil_of_regions {children : List Guard} {rs : List Region} (hne : children ≠ [])
    (h : regions children = .ok rs) : rs ≠ [] := by
  rintro rfl
  rw [regions_eq_ok_iff, List.forall₂_nil_right_iff] at h
  exact hne h

/-- A group with one more condition, unless it has been empty. -/
theorem region_group_concat {children : List Guard} (hne : children ≠ []) :
    (group connective (children ++ [h])).region = .ok r ↔
      ∃ a, (group connective children).region = .ok a ∧
        ∃ b, h.region = .ok b ∧ connective.onRegions a b = r := by
  simp only [region_group_eq_ok_iff, regions_concat_eq_ok_iff]
  constructor
  · rintro ⟨_, ⟨as, has, b, hb, rfl⟩, rfl⟩
    exact ⟨_, ⟨as, has, rfl⟩, b, hb, (Region.combine_concat b (ne_nil_of_regions hne has)).symm⟩
  · rintro ⟨_, ⟨as, has, rfl⟩, b, hb, rfl⟩
    exact ⟨_, ⟨as, has, b, hb, rfl⟩, Region.combine_concat b (ne_nil_of_regions hne has)⟩

/-- A group of one guard has the region of that guard, under either connective. -/
theorem region_group_singleton : (group connective [h]).region = .ok r ↔ h.region = .ok r := by
  have hone (rs : List Region) : regions [h] = .ok rs ↔
      ∃ as, regions [] = .ok as ∧ ∃ b, h.region = .ok b ∧ as ++ [b] = rs :=
    @regions_concat_eq_ok_iff h [] rs
  simp only [region_group_eq_ok_iff, hone]
  constructor
  · rintro ⟨_, ⟨_, ⟨⟩, b, hb, rfl⟩, rfl⟩
    exact hb
  · intro hr
    exact ⟨[r], ⟨[], rfl, r, hr, rfl⟩, rfl⟩

/-- The region of a group of two is that of the one combined with that of the other. -/
theorem region_group_pair :
    (group connective [g, h]).region = .ok r ↔
      ∃ a, g.region = .ok a ∧ ∃ b, h.region = .ok b ∧ connective.onRegions a b = r := by
  have hpair : (group connective ([g] ++ [h])).region = .ok r ↔ _ :=
    region_group_concat (List.cons_ne_nil g [])
  simp only [region_group_singleton] at hpair
  exact hpair

/-- **One step**: the region of a guard to which a condition is joined is that of the guard
combined with that of the condition, and there is none if either has none. Only a conjunction of
nothing is no part of the conjunction that it becomes. -/
theorem region_join_eq_ok_iff (hne : ¬ (connective = .and ∧ g = .all [])) :
    (g.join connective h).region = .ok r ↔
      ∃ a, g.region = .ok a ∧ ∃ b, h.region = .ok b ∧ connective.onRegions a b = r := by
  rcases join_cases g connective h with ⟨children, rfl, heq⟩ | heq
  · rw [heq]
    by_cases hchildren : children = []
    · -- a disjunction of nothing adds nothing to the region of the condition
      subst hchildren
      cases connective with
      | and => exact absurd ⟨rfl, rfl⟩ hne
      | or =>
        rw [List.nil_append, region_group_singleton]
        constructor
        · intro hr
          exact ⟨.empty, rfl, r, hr, Region.empty_union (hasRegion hr).reachable⟩
        · rintro ⟨_, ⟨⟩, b, hb, rfl⟩
          have hunion : Region.empty.union b = b := Region.empty_union (hasRegion hb).reachable
          exact hb.trans (congrArg Except.ok hunion.symm)
    · exact region_group_concat hchildren
  · rw [heq, region_group_pair]

/-- The conjunction that a conjunction of nothing becomes is the condition joined to it. -/
theorem region_join_all_nil : ((all []).join .and h).region = .ok r ↔ h.region = .ok r :=
  @region_group_singleton h .and r

/-! ## Any number of steps -/

/-- No step leads to a conjunction of nothing. -/
theorem eq_nil_of_joined_eq {start : Guard} {steps : List (Connective × Guard)}
    (h : start.joined steps = .all []) : steps = [] := by
  rcases List.eq_nil_or_concat' steps with rfl | ⟨before, step, rfl⟩
  · rfl
  · rw [joined_concat] at h
    exact absurd h join_ne_group_nil

/-- **Joining conditions combines regions.** After any steps, one more gives a guard that has a
region exactly when the guard before it and the condition that it joins have one. That region is
the intersection of the two for `and` and their union for `or`, with one exception: joined by
`and` to a conjunction of nothing, which denotes the empty region, a condition keeps its own
region. Only the first step can meet that guard. -/
theorem region_joined (start : Guard) (steps : List (Connective × Guard)) (connective : Connective)
    (h : Guard) :
    ((∃ r, (start.joined (steps ++ [(connective, h)])).region = .ok r) ↔
      (∃ a, (start.joined steps).region = .ok a) ∧ ∃ b, h.region = .ok b) ∧
    (∀ a b, (start.joined steps).region = .ok a → h.region = .ok b →
      ¬ (connective = .and ∧ start.joined steps = .all []) →
        (start.joined (steps ++ [(connective, h)])).region = .ok (connective.onRegions a b)) ∧
    (∀ b, h.region = .ok b → connective = .and → start.joined steps = .all [] →
      (start.joined (steps ++ [(connective, h)])).region = .ok b) ∧
    (start.joined steps = .all [] → steps = [] ∧ start = .all []) := by
  rw [joined_concat]
  generalize hg : start.joined steps = g
  refine ⟨?_, ?_, ?_, ?_⟩
  · by_cases hne : connective = .and ∧ g = .all []
    · obtain ⟨rfl, rfl⟩ := hne
      simp only [region_join_all_nil]
      exact (and_iff_right ⟨.empty, rfl⟩).symm
    · simp only [region_join_eq_ok_iff hne]
      constructor
      · rintro ⟨_, a, ha, b, hb, -⟩
        exact ⟨⟨a, ha⟩, b, hb⟩
      · rintro ⟨⟨a, ha⟩, b, hb⟩
        exact ⟨_, a, ha, b, hb, rfl⟩
  · intro a b ha hb hne
    exact (region_join_eq_ok_iff hne).mpr ⟨a, ha, b, hb, rfl⟩
  · rintro b hb rfl rfl
    exact region_join_all_nil.mpr hb
  · rintro rfl
    obtain rfl := eq_nil_of_joined_eq hg
    exact ⟨rfl, hg⟩

/-- A condition joined to a disjunction of nothing and another one to both, and the same condition
joined to a conjunction of nothing. -/
theorem region_joined_nothing :
    ((any []).joined [(.or, link .argument .lt (.constant 1)),
      (.and, link .argument .ge (.constant 0))]).region =
        .ok ((Region.empty.union (.Iio 1)).inter (.Ici 0)) ∧
    ((all []).joined [(.and, link .argument .lt (.constant 1))]).region = .ok (.Iio 1) := by
  obtain ⟨-, hor, -⟩ := region_joined (any []) [] .or (link .argument .lt (.constant 1))
  obtain ⟨-, hand, -⟩ := region_joined (any []) [(.or, link .argument .lt (.constant 1))] .and
    (link .argument .ge (.constant 0))
  obtain ⟨-, -, hnothing, -⟩ := region_joined (all []) [] .and (link .argument .lt (.constant 1))
  refine ⟨hand _ _ (hor _ _ rfl rfl nofun) rfl ?_, hnothing _ rfl rfl rfl⟩
  rintro ⟨-, ⟨⟩⟩

/-- A conjunction of nothing denotes the empty region, and a condition joined to it keeps the reals
at which it holds: they are not intersected. -/
theorem region_joined_ne_inter :
    ¬ ∀ (start : Guard) (steps : List (Connective × Guard)) (connective : Connective) (h : Guard)
      (a b : Region), (start.joined steps).region = .ok a → h.region = .ok b →
        (start.joined (steps ++ [(connective, h)])).region = .ok (connective.onRegions a b) := by
  intro hall
  have hclaim := hall (all []) [] .and (link .argument .lt (.constant 1)) .empty (.Iio 1) rfl rfl
  exact absurd hclaim (by decide +kernel)

end Guard

end PiecewiseLinear
