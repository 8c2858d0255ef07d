import PiecewiseLinear.Proofs.Double.Negation
import PiecewiseLinear.Proofs.Guard.Region

/-!
# Guards on the real line

Where a guard holds among the reals, which are more than the doubles: `x > 0` and `x < c` may
hold of a common real without holding of a common double.

- `Double.point?`, `Operand.IsAt`, `Comparator.Relates`: what is compared there.
- `Guard.HoldsAtReal`: whether a guard holds at a real.
- `Region.mem_reals_ofBounds`, `Comparator.mem_reals_solutions`: reals between endpoints and
  beside them.
- `Guard.mem_reals_iff`: the region of a guard holds the reals at which the guard holds.
-/

namespace PiecewiseLinear

open Double (toEReal)

/-- The point of the extended line that a double stands for, unless it is NaN. -/
noncomputable def Double.point? (v : Float) : Option EReal :=
  if v.isNaN then none else some (toEReal v)

/-- Whether two points compare as asked, where NaN is no point. Nothing but `!=` holds of it. -/
def Comparator.Relates (op : Comparator) : Option EReal → Option EReal → Prop
  | some a, some b =>
    match op with
    | lt => a < b
    | le => a ≤ b
    | gt => b < a
    | ge => b ≤ a
    | eq => a = b
    | ne => a ≠ b
  | _, _ => op = ne

/-- The point where an operand is for a real argument. What is not supported is nowhere. -/
inductive Operand.IsAt (x : ℝ) : Operand → Option EReal → Prop where
  | argument : IsAt x argument (some x)
  | constant (v : Float) : IsAt x (constant v) (Double.point? v)
  | neg {operand : Operand} {p : Option EReal} :
    IsAt x operand p → IsAt x (neg operand) (p.map (-·))

/-- Whether each link of a chain holds at a real, where `left` is in front of the first. -/
def Comparison.LinksHoldAtReal (x : ℝ) : Operand → List (Comparator × Operand) → Prop
  | _, [] => True
  | left, (op, right) :: links =>
    (∃ p q, left.IsAt x p ∧ right.IsAt x q ∧ op.Relates p q) ∧ LinksHoldAtReal x right links

/-- Whether a chain of comparisons holds at a real. -/
def Comparison.HoldsAtReal (x : ℝ) (c : Comparison) : Prop := LinksHoldAtReal x c.first c.links

/-- Whether a guard holds at a real. A conjunction or disjunction of nothing holds nowhere. -/
inductive Guard.HoldsAtReal (x : ℝ) : Guard → Prop where
  | all {children : List Guard} :
    children ≠ [] → (∀ g ∈ children, HoldsAtReal x g) → HoldsAtReal x (.all children)
  | any {children : List Guard} {g : Guard} :
    g ∈ children → HoldsAtReal x g → HoldsAtReal x (.any children)
  | compare {c : Comparison} : c.HoldsAtReal x → HoldsAtReal x (.compare c)

/-! ## Points -/

namespace Double

theorem point?_of_isNaN {v : Float} (h : v.isNaN = true) : point? v = none := if_pos h

theorem point?_of_not_isNaN {v : Float} (h : v.isNaN = false) : point? v = some (toEReal v) := by
  rw [point?, h]
  rfl

@[simp] theorem point?_infinity : point? infinity = some ⊤ := by
  rw [point?_of_not_isNaN isNaN_infinity, toEReal_infinity]

@[simp] theorem point?_neg_infinity : point? (-infinity) = some ⊥ := by
  rw [point?_of_not_isNaN isNaN_neg_infinity, toEReal_neg_infinity]

theorem point?_neg (v : Float) : point? (-v) = (point? v).map (-·) := by
  cases h : v.isNaN with
  | true =>
    rw [point?_of_isNaN h, point?_of_isNaN ((isNaN_neg v).trans h)]
    rfl
  | false =>
    rw [point?_of_not_isNaN h, point?_of_not_isNaN ((isNaN_neg v).trans h), toEReal_neg h]
    rfl

end Double

open Double (point?)

/-! ## Regions of single comparisons -/

/-- The reals between two endpoints, found by comparing with each of them. -/
theorem Region.mem_reals_ofBounds {left right : Edge} {lower upper : Float} {x : ℝ} :
    x ∈ (ofBounds left lower upper right).reals ↔
      ∃ a b, point? lower = some a ∧ point? upper = some b ∧
        (a < x ∨ left = .included ∧ a = x) ∧ (x < b ∨ right = .included ∧ x = b) := by
  rw [mem_reals_iff, ofBounds, mem_covers_toList]
  rcases Double.isNaN_or lower upper with ⟨hl, hu⟩ | h
  · rw [Segment.exists_mem_ofBounds?_of_mem_line hl hu (real_mem_line x), Cut.lower_le_before,
      Cut.before_lt_upper]
    simp [Double.point?_of_not_isNaN hl, Double.point?_of_not_isNaN hu]
  · rw [Segment.ofBounds?_of_isNaN h]
    rcases h with h | h <;> simp [Double.point?_of_isNaN h]

namespace Comparator

variable {op : Comparator} {p q : Option EReal} {x : ℝ}

theorem relates_flip : op.flip.Relates p q ↔ op.Relates q p := by
  rcases p with - | a <;> rcases q with - | b <;> cases op <;> simp [Relates, flip, eq_comm]

/-- A comparator that points up holds between two points if the first lies below the second, or they
are equal and it admits that. -/
theorem relates_of_pointsUp (h : op.pointsUp = true) :
    op.Relates p q ↔
      ∃ a b, p = some a ∧ q = some b ∧ (a < b ∨ op.edge = .included ∧ a = b) := by
  cases op with
  | lt | le =>
    rcases p with - | a <;> rcases q with - | b <;>
      simp [Relates, edge, admitsEqual, le_iff_lt_or_eq]
  | gt | ge | eq | ne => simp [pointsUp] at h

/-- A comparator that points down holds between two points the other way round. -/
theorem relates_of_pointsDown (h : op.pointsDown = true) :
    op.Relates p q ↔
      ∃ a b, p = some a ∧ q = some b ∧ (b < a ∨ op.edge = .included ∧ b = a) := by
  cases op with
  | gt | ge =>
    rcases p with - | a <;> rcases q with - | b <;>
      simp [Relates, edge, admitsEqual, le_iff_lt_or_eq]
  | lt | le | eq | ne => simp [pointsDown] at h

/-- The region of a single endpoint has the real that the endpoint is, if it is one. -/
theorem mem_reals_point {v : Float} : x ∈ (Region.point v).reals ↔ point? v = some (x : EReal) := by
  rw [Region.point, Region.mem_reals_ofBounds]
  constructor
  · rintro ⟨a, b, ha, hb, hlower, hupper⟩
    rw [ha] at hb
    obtain rfl := Option.some.inj hb
    rw [ha]
    rcases hlower with hlt | ⟨-, rfl⟩
    · rcases hupper with hgt | ⟨-, rfl⟩
      · exact absurd hgt hlt.not_gt
      · rfl
    · rfl
  · intro h
    exact ⟨x, x, h, h, .inr ⟨rfl, rfl⟩, .inr ⟨rfl, rfl⟩⟩

/-- The solutions of `x op bound` are the reals that compare so. -/
theorem mem_reals_solutions {bound : Float} :
    x ∈ (op.solutions bound).reals ↔ op.Relates (some x) (point? bound) := by
  have hlow : (⊥ : EReal) < x := EReal.bot_lt_coe x
  have hhigh : (x : EReal) < ⊤ := EReal.coe_lt_top x
  cases op with
  | lt | le =>
    rw [relates_of_pointsUp rfl]
    simp [solutions, Region.Iio, Region.Iic, Region.mem_reals_ofBounds, edge, admitsEqual, hlow]
  | gt | ge =>
    rw [relates_of_pointsDown rfl]
    simp [solutions, Region.Ioi, Region.Ici, Region.mem_reals_ofBounds, edge, admitsEqual, hhigh]
  | eq =>
    rw [solutions, mem_reals_point]
    cases point? bound <;> simp [Relates, eq_comm]
  | ne =>
    rw [solutions, Region.reals_compl (a := .point bound) (.ofBounds _ _ _ _),
      Set.mem_compl_iff, mem_reals_point]
    cases point? bound <;> simp [Relates, eq_comm]

end Comparator

/-! ## Regions of comparisons -/

namespace Operand

variable {operand : Operand} {x : ℝ} {p : Option EReal}

theorem isAt_argument : IsAt x argument p ↔ p = some (x : EReal) := by
  constructor
  · rintro ⟨⟩
    rfl
  · rintro rfl
    exact .argument

/-- The point of a number does not depend on the argument. -/
theorem isAt_of_side {v : Float} (h : operand.side = .ok (.number v)) :
    operand.IsAt x p ↔ p = point? v := by
  induction operand generalizing v p with
  | argument => cases h
  | unsupported source => cases h
  | constant w =>
    cases h
    constructor
    · rintro ⟨⟩
      rfl
    · rintro rfl
      exact .constant w
  | neg operand ih =>
    obtain ⟨side, hside, h⟩ := bind_eq_ok_iff.mp h
    cases side with
    | argument => cases h
    | number w =>
      cases h
      rw [Double.point?_neg]
      constructor
      · rintro ⟨⟩
        next q hq => rw [(ih hside).mp hq]
      · rintro rfl
        exact .neg ((ih hside).mpr rfl)

end Operand

namespace Comparison

variable {x : ℝ}

/-- The region of a chain holds the reals of which both of its links hold. -/
theorem mem_reals_chainRegion {first last : Float} {op₀ op₁ : Comparator} {r : Region}
    (h : chainRegion first op₀ op₁ last = .ok r) :
    x ∈ r.reals ↔
      op₀.Relates (point? first) (some x) ∧ op₁.Relates (some x) (point? last) := by
  unfold chainRegion at h
  split_ifs at h with hup hdown
  · cases h
    rw [Bool.and_eq_true] at hup
    rw [Region.mem_reals_ofBounds, Comparator.relates_of_pointsUp hup.1,
      Comparator.relates_of_pointsUp hup.2]
    constructor
    · rintro ⟨a, b, ha, hb, hlower, hupper⟩
      exact ⟨⟨a, x, ha, rfl, hlower⟩, x, b, rfl, hb, hupper⟩
    · rintro ⟨⟨a, _, ha, ⟨⟩, hlower⟩, _, b, ⟨⟩, hb, hupper⟩
      exact ⟨a, b, ha, hb, hlower, hupper⟩
  · cases h
    rw [Bool.and_eq_true] at hdown
    rw [Region.mem_reals_ofBounds, Comparator.relates_of_pointsDown hdown.1,
      Comparator.relates_of_pointsDown hdown.2]
    -- the ends swap places, and the links with them
    constructor
    · rintro ⟨a, b, ha, hb, hlower, hupper⟩
      exact ⟨⟨b, x, hb, rfl, hupper⟩, x, a, rfl, ha, hlower⟩
    · rintro ⟨⟨b, _, hb, ⟨⟩, hupper⟩, _, a, ⟨⟩, ha, hlower⟩
      exact ⟨a, b, ha, hb, hlower, hupper⟩

/-- The region of a comparison holds the reals of which the comparison holds. -/
theorem mem_reals_iff {c : Comparison} {r : Region} (h : c.region? = .ok r) :
    x ∈ r.reals ↔ c.HoldsAtReal x := by
  cases denotes_of_region? h with
  | argumentFirst hside =>
    rw [Comparator.mem_reals_solutions]
    simp [HoldsAtReal, LinksHoldAtReal, Operand.isAt_argument, Operand.isAt_of_side hside]
  | argumentLast hside =>
    rw [Comparator.mem_reals_solutions, Comparator.relates_flip]
    simp [HoldsAtReal, LinksHoldAtReal, Operand.isAt_argument, Operand.isAt_of_side hside]
  | between hfirst hlast hchain =>
    rw [mem_reals_chainRegion hchain]
    simp [HoldsAtReal, LinksHoldAtReal, Operand.isAt_argument, Operand.isAt_of_side hfirst,
      Operand.isAt_of_side hlast]

end Comparison

/-! ## Regions of guards -/

namespace Guard

variable {x : ℝ}

/-- A conjunction holds at a real where it has children and all of them hold. -/
theorem holdsAtReal_all {children : List Guard} :
    HoldsAtReal x (all children) ↔ children ≠ [] ∧ ∀ g ∈ children, g.HoldsAtReal x := by
  constructor
  · rintro ⟨⟩
    next hne hall => exact ⟨hne, hall⟩
  · rintro ⟨hne, hall⟩
    exact .all hne hall

/-- A disjunction holds at a real where one of its children does. -/
theorem holdsAtReal_any {children : List Guard} :
    HoldsAtReal x (any children) ↔ ∃ g ∈ children, g.HoldsAtReal x := by
  constructor
  · rintro ⟨⟩
    next g hg hmem => exact ⟨g, hmem, hg⟩
  · rintro ⟨g, hmem, hg⟩
    exact .any hmem hg

theorem holdsAtReal_compare {c : Comparison} :
    HoldsAtReal x (compare c) ↔ c.HoldsAtReal x := by
  constructor
  · rintro ⟨⟩
    next hc => exact hc
  · exact .compare

/-- Regions of joined conditions, each of which holds the reals of its condition. -/
theorem forall₂_mem_reals {children : List Guard} {rs : List Region}
    (ih : ∀ g ∈ children, ∀ r, g.region = .ok r → (x ∈ r.reals ↔ g.HoldsAtReal x))
    (h : regions children = .ok rs) :
    List.Forall₂ (fun g r => x ∈ Region.reals r ↔ HoldsAtReal x g) children rs := by
  rw [regions_eq_ok_iff] at h
  induction h with
  | nil => exact .nil
  | cons hg _ ih' =>
    rw [List.forall_mem_cons] at ih
    exact .cons (ih.1 _ hg) (ih' ih.2)

/-- The region of a guard holds the reals at which the guard holds, by induction over the
guard. -/
theorem mem_reals_iff {g : Guard} {r : Region} (h : g.region = .ok r) :
    x ∈ r.reals ↔ g.HoldsAtReal x := by
  induction g using induction generalizing r with
  | all children ih =>
    obtain ⟨rs, hrs, rfl⟩ := region_all_eq_ok_iff.mp h
    have hregions := forall₂_hasRegion (fun _ _ _ => hasRegion) hrs
    have hreals := forall₂_mem_reals (fun g hg r => ih g hg) hrs
    rw [Region.mem_reals_combine_inter (reachable_of_forall₂ hregions), ne_eq,
      eq_nil_iff hregions, forall_mem_congr hreals, holdsAtReal_all]
  | any children ih =>
    obtain ⟨rs, hrs, rfl⟩ := region_any_eq_ok_iff.mp h
    have hregions := forall₂_hasRegion (fun _ _ _ => hasRegion) hrs
    have hreals := forall₂_mem_reals (fun g hg r => ih g hg) hrs
    rw [Region.mem_reals_combine_union (reachable_of_forall₂ hregions),
      exists_mem_congr hreals, holdsAtReal_any]
  | compare c => rw [Comparison.mem_reals_iff (region_compare_eq_ok_iff.mp h), holdsAtReal_compare]
  | unsupported source => cases h

/-- At a finite double an admitted guard holds as it does at the real of the double. -/
theorem Admitted.holdsAt_iff {g : Guard} (hg : g.Admitted) {v : Float} (hv : v.isFinite = true) :
    g.holdsAt v = true ↔ g.HoldsAtReal (Double.toReal v) := by
  obtain ⟨r, hr⟩ := hg.exists_region
  have hregion := hasRegion hr
  rw [← hregion.mem_iff v hv, Region.mem_iff_toReal_mem hregion.reachable hv, mem_reals_iff hr]

end Guard

end PiecewiseLinear
