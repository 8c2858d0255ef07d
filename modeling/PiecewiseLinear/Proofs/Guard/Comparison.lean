import PiecewiseLinear.Guard.Region
import PiecewiseLinear.Proofs.Except
import PiecewiseLinear.Proofs.Region.SetOperations

/-!
# Regions of comparisons

- `Operand.IsNumber`, `Comparison.Admitted`: the forms of operands and comparisons that have
  a region.
- `Comparator.mem_solutions`: the solutions of `x op bound`.
- `Comparison.Denotes`: the shapes of comparisons with a region.
- `Comparison.hasRegion`: a comparison with a region has an admitted form, and the region
  holds the finite doubles that satisfy it.
- `Comparison.Admitted.exists_region`: a comparison in an admitted form has a region.
-/

namespace PiecewiseLinear

/-! ## Comparators -/

namespace Comparator

/-- A comparator with its sides exchanged holds where it did. -/
theorem compares_flip (op : Comparator) (a b : Float) :
    op.flip.compares a b = op.compares b a := by
  cases op with
  | lt | le | gt | ge => rfl
  | eq => exact BEq.comm
  | ne => exact congrArg (!·) (BEq.comm)

theorem compares_of_pointsUp {op : Comparator} (h : op.pointsUp = true) {a b : Float} :
    op.compares a b = true ↔ a < b ∨ op.edge = .included ∧ (a == b) = true := by
  cases op with
  | lt => simp [compares, edge, admitsEqual]
  | le => simp [compares, edge, admitsEqual, Double.le_iff_lt_or_beq]
  | gt | ge | eq | ne => simp [pointsUp] at h

theorem compares_of_pointsDown {op : Comparator} (h : op.pointsDown = true) {a b : Float} :
    op.compares a b = true ↔ b < a ∨ op.edge = .included ∧ (b == a) = true := by
  cases op with
  | gt => simp [compares, edge, admitsEqual]
  | ge => simp [compares, edge, admitsEqual, Double.le_iff_lt_or_beq]
  | lt | le | eq | ne => simp [pointsDown] at h

theorem reachable_solutions (op : Comparator) (bound : Float) :
    (op.solutions bound).Reachable := by
  cases op with
  | lt | le | gt | ge | eq => exact .ofBounds _ _ _ _
  | ne => exact .compl (.ofBounds _ _ _ _)

/-- The region of a single point holds the doubles that compare as equal to it. -/
theorem mem_point {v x : Float} (hx : x.isFinite = true) :
    x ∈ Region.point v ↔ (x == v) = true := by
  rw [Region.point, Region.mem_ofBounds hx, BEq.comm]
  constructor
  · rintro ⟨hlt | ⟨-, heq⟩, hgt | ⟨-, heq'⟩⟩
    · exact absurd hgt (Double.not_lt_of_lt hlt)
    · exact heq'
    · exact heq
    · exact heq
  · intro heq
    exact ⟨.inr ⟨rfl, heq⟩, .inr ⟨rfl, heq⟩⟩

/-- The solutions of `x op bound` are the finite doubles that compare so. -/
theorem mem_solutions {op : Comparator} {bound x : Float} (hx : x.isFinite = true) :
    x ∈ op.solutions bound ↔ op.compares x bound = true := by
  have hlow := Double.neg_infinity_lt hx
  have hhigh := Double.lt_infinity hx
  cases op with
  | lt => simp [solutions, compares, Region.Iio, Region.mem_ofBounds hx, hlow]
  | le =>
    simp [solutions, compares, Region.Iic, Region.mem_ofBounds hx, hlow, Double.le_iff_lt_or_beq]
  | gt => simp [solutions, compares, Region.Ioi, Region.mem_ofBounds hx, hhigh]
  | ge =>
    simp [solutions, compares, Region.Ici, Region.mem_ofBounds hx, hhigh, Double.le_iff_lt_or_beq]
  | eq => exact mem_point hx
  | ne =>
    rw [solutions, Region.mem_compl (a := .point bound) (.ofBounds _ _ _ _) hx, mem_point hx]
    simp [compares, bne]

end Comparator

/-! ## Operands -/

/-- A constant under any number of negations. -/
inductive Operand.IsNumber : Operand → Prop where
  | constant (v : Float) : IsNumber (.constant v)
  | neg {operand : Operand} : IsNumber operand → IsNumber (.neg operand)

namespace Operand

theorem IsNumber.exists_side {operand : Operand} (h : operand.IsNumber) :
    ∃ v, operand.side = .ok (.number v) := by
  induction h with
  | constant v => exact ⟨v, rfl⟩
  | neg _ ih =>
    obtain ⟨v, hv⟩ := ih
    exact ⟨-v, bind_eq_ok_iff.mpr ⟨_, hv, rfl⟩⟩

/-- The number that an operand stands for does not depend on the argument. -/
theorem number_of_side {operand : Operand} {v : Float} (h : operand.side = .ok (.number v)) :
    operand.IsNumber ∧ ∀ x, operand.valueAt x = some v := by
  induction operand generalizing v with
  | argument => cases h
  | unsupported source => cases h
  | constant w =>
    cases h
    exact ⟨.constant w, fun _ => rfl⟩
  | neg operand ih =>
    obtain ⟨side, hside, h⟩ := bind_eq_ok_iff.mp h
    cases side with
    | argument => cases h
    | number w =>
      cases h
      obtain ⟨hnumber, hvalue⟩ := ih hside
      refine ⟨.neg hnumber, ?_⟩
      intro x
      rw [valueAt, hvalue x, Option.map_some]

/-- Only the bare argument stands for the argument. -/
theorem eq_argument_of_side {operand : Operand} (h : operand.side = .ok .argument) :
    operand = .argument := by
  cases operand with
  | argument => rfl
  | constant v => cases h
  | unsupported source => cases h
  | neg operand =>
    obtain ⟨side, -, h⟩ := bind_eq_ok_iff.mp h
    cases side <;> cases h

end Operand

/-! ## Comparisons -/

/-- The forms `x op c`, `c op x` and `c op x op c` of comparisons, where a chain points one
way. -/
inductive Comparison.Admitted : Comparison → Prop where
  | argumentFirst {op : Comparator} {bound : Operand} :
    bound.IsNumber → Admitted ⟨.argument, [(op, bound)]⟩
  | argumentLast {op : Comparator} {bound : Operand} :
    bound.IsNumber → Admitted ⟨bound, [(op, .argument)]⟩
  | between {op₀ op₁ : Comparator} {first last : Operand} :
    first.IsNumber → last.IsNumber →
      op₀.pointsUp = true ∧ op₁.pointsUp = true ∨
        op₀.pointsDown = true ∧ op₁.pointsDown = true →
      Admitted ⟨first, [(op₀, .argument), (op₁, last)]⟩

/-- The region of a chain holds what both of its links hold of. -/
theorem chainRegion_spec {first last : Float} {op₀ op₁ : Comparator} {r : Region}
    (h : chainRegion first op₀ op₁ last = .ok r) :
    (op₀.pointsUp = true ∧ op₁.pointsUp = true ∨
      op₀.pointsDown = true ∧ op₁.pointsDown = true) ∧ r.Reachable ∧
    ∀ x : Float, x.isFinite = true →
      (x ∈ r ↔ op₀.compares first x = true ∧ op₁.compares x last = true) := by
  unfold chainRegion at h
  split_ifs at h with hup hdown
  · cases h
    rw [Bool.and_eq_true] at hup
    refine ⟨.inl hup, .ofBounds _ _ _ _, ?_⟩
    intro x hx
    rw [Region.mem_ofBounds hx, Comparator.compares_of_pointsUp hup.1,
      Comparator.compares_of_pointsUp hup.2]
  · cases h
    rw [Bool.and_eq_true] at hdown
    refine ⟨.inr hdown, .ofBounds _ _ _ _, ?_⟩
    -- the ends swap places, and the links with them
    intro x hx
    rw [Region.mem_ofBounds hx, Comparator.compares_of_pointsDown hdown.1,
      Comparator.compares_of_pointsDown hdown.2, and_comm]

/-- A chain has a region if both comparators point the same way. -/
theorem exists_chainRegion {first last : Float} {op₀ op₁ : Comparator}
    (h : op₀.pointsUp = true ∧ op₁.pointsUp = true ∨
      op₀.pointsDown = true ∧ op₁.pointsDown = true) :
    ∃ r, chainRegion first op₀ op₁ last = .ok r := by
  unfold chainRegion
  split_ifs with hup hdown
  · exact ⟨_, rfl⟩
  · exact ⟨_, rfl⟩
  · rw [Bool.and_eq_true] at hup hdown
    exact absurd h (not_or.mpr ⟨hup, hdown⟩)

namespace Comparison

/-- What a comparison with a region is, and what its region holds. -/
structure HasRegion (c : Comparison) (r : Region) : Prop where
  admitted : c.Admitted
  reachable : r.Reachable
  mem_iff : ∀ x : Float, x.isFinite = true → (x ∈ r ↔ c.holdsAt x = true)

/-- The shapes of the comparisons that have a region, each with that region. -/
inductive Denotes : Comparison → Region → Prop where
  | argumentFirst {op : Comparator} {operand : Operand} {bound : Float} :
    operand.side = .ok (.number bound) →
      Denotes ⟨.argument, [(op, operand)]⟩ (op.solutions bound)
  | argumentLast {op : Comparator} {operand : Operand} {bound : Float} :
    operand.side = .ok (.number bound) →
      Denotes ⟨operand, [(op, .argument)]⟩ (op.flip.solutions bound)
  | between {op₀ op₁ : Comparator} {first last : Operand} {lower upper : Float} {r : Region} :
    first.side = .ok (.number lower) → last.side = .ok (.number upper) →
      chainRegion lower op₀ op₁ upper = .ok r →
      Denotes ⟨first, [(op₀, .argument), (op₁, last)]⟩ r

/-- A single comparison with a region has the argument on one side and a number on the other. -/
theorem denotes_simple {lhs rhs : Operand} {op : Comparator} {r : Region}
    (h : region? ⟨lhs, [(op, rhs)]⟩ = .ok r) : Denotes ⟨lhs, [(op, rhs)]⟩ r := by
  obtain ⟨left, hleft, h⟩ := bind_eq_ok_iff.mp h
  obtain ⟨right, hright, h⟩ := bind_eq_ok_iff.mp h
  cases left with
  | argument =>
    cases right with
    | argument => cases h
    | number bound =>
      cases h
      cases Operand.eq_argument_of_side hleft
      exact .argumentFirst hright
  | number bound =>
    cases right with
    | number _ => cases h
    | argument =>
      cases h
      cases Operand.eq_argument_of_side hright
      exact .argumentLast hleft

/-- A chain of two links with a region has the argument in the middle and numbers around it. -/
theorem denotes_chain {first middle last : Operand} {op₀ op₁ : Comparator} {r : Region}
    (h : region? ⟨first, [(op₀, middle), (op₁, last)]⟩ = .ok r) :
    Denotes ⟨first, [(op₀, middle), (op₁, last)]⟩ r := by
  obtain ⟨side, hmiddle, h⟩ := bind_eq_ok_iff.mp h
  cases side with
  | number _ => cases h
  | argument =>
    cases Operand.eq_argument_of_side hmiddle
    obtain ⟨left, hfirst, h⟩ := bind_eq_ok_iff.mp h
    obtain ⟨right, hlast, h⟩ := bind_eq_ok_iff.mp h
    cases left with
    | argument => cases h
    | number lower =>
      cases right with
      | argument => cases h
      | number upper => exact .between hfirst hlast h

/-- A comparison with a region has one of the shapes. -/
theorem denotes_of_region? {c : Comparison} {r : Region} (h : c.region? = .ok r) :
    c.Denotes r := by
  obtain ⟨first, links⟩ := c
  match links with
  | [] => cases h
  | [(op, rhs)] => exact denotes_simple h
  | [(op₀, middle), (op₁, last)] => exact denotes_chain h
  | _ :: _ :: _ :: _ => cases h

/-- A comparison with a region has one of the admitted forms, and in its region are the finite
doubles at which it holds. -/
theorem hasRegion {c : Comparison} {r : Region} (h : c.region? = .ok r) : c.HasRegion r := by
  cases denotes_of_region? h with
  | @argumentFirst op operand bound hside =>
    obtain ⟨hnumber, hvalue⟩ := Operand.number_of_side hside
    refine ⟨.argumentFirst hnumber, op.reachable_solutions bound, ?_⟩
    intro x hx
    rw [Comparator.mem_solutions hx]
    simp [holdsAt, linksHoldAt, Operand.valueAt, hvalue x]
  | @argumentLast op operand bound hside =>
    obtain ⟨hnumber, hvalue⟩ := Operand.number_of_side hside
    refine ⟨.argumentLast hnumber, op.flip.reachable_solutions bound, ?_⟩
    intro x hx
    rw [Comparator.mem_solutions hx, Comparator.compares_flip]
    simp [holdsAt, linksHoldAt, Operand.valueAt, hvalue x]
  | between hfirst hlast hchain =>
    obtain ⟨hdirection, hreachable, hmem⟩ := chainRegion_spec hchain
    obtain ⟨hnumber, hvalue⟩ := Operand.number_of_side hfirst
    obtain ⟨hnumber', hvalue'⟩ := Operand.number_of_side hlast
    refine ⟨.between hnumber hnumber' hdirection, hreachable, ?_⟩
    intro x hx
    rw [hmem x hx]
    simp [holdsAt, linksHoldAt, Operand.valueAt, hvalue x, hvalue' x]

/-- Every admitted form has a region. -/
theorem Admitted.exists_region {c : Comparison} (h : c.Admitted) : ∃ r, c.region? = .ok r := by
  cases h with
  | argumentFirst hbound =>
    obtain ⟨v, hv⟩ := hbound.exists_side
    exact ⟨_, bind_eq_ok_iff.mpr ⟨_, rfl, bind_eq_ok_iff.mpr ⟨_, hv, rfl⟩⟩⟩
  | argumentLast hbound =>
    obtain ⟨v, hv⟩ := hbound.exists_side
    exact ⟨_, bind_eq_ok_iff.mpr ⟨_, hv, bind_eq_ok_iff.mpr ⟨_, rfl, rfl⟩⟩⟩
  | between hfirst hlast hdirection =>
    obtain ⟨v, hv⟩ := hfirst.exists_side
    obtain ⟨w, hw⟩ := hlast.exists_side
    obtain ⟨r, hr⟩ := exists_chainRegion hdirection
    exact ⟨r, bind_eq_ok_iff.mpr ⟨_, rfl, bind_eq_ok_iff.mpr
      ⟨_, hv, bind_eq_ok_iff.mpr ⟨_, hw, hr⟩⟩⟩⟩

end Comparison

end PiecewiseLinear
