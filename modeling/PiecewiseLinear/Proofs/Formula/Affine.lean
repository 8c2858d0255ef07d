import Mathlib.Tactic.Ring
import PiecewiseLinear.Proofs.Formula.Degree
import PiecewiseLinear.Proofs.Number.Rounding

/-!
# Formulas over the rationals

Over the rationals, where nothing is rounded, an admitted formula is `a · x + b`.

- `Double.toRat`: the rational that a finite double stands for; as a real it is `Double.toReal`.
- `Arithmetic.rational`: exact arithmetic, where a quotient by zero has no value.
- `Formula.IsAffine`: a formula that comes to `a · x + b`, with `a = 0` where the argument does
  not occur.
- `Formula.IsAffine.sum`, `Formula.IsAffine.product`, `Formula.IsAffine.quotient`: what such
  formulas are put together to.
- `Formula.toFunctionIn_rational`: the functions of admitted formulas.
-/

namespace PiecewiseLinear

/-- The exact operation on rationals. There is no quotient by zero. -/
def Arith.exact (op : Arith) (a b : ℚ) : Option ℚ :=
  match op with
  | add => some (a + b)
  | sub => some (a - b)
  | mul => some (a * b)
  | div => if b = 0 then none else some (a / b)

/-- The rational that a finite double stands for. -/
def Double.toRat (v : Float) : ℚ :=
  let (num, den) := ratio v
  if isNegative v then -(num / den) else num / den

/-- Read as a rational or as a real, a double stands for the same number. -/
theorem Double.cast_toRat (v : Float) : (toRat v : ℝ) = toReal v := by
  simp only [toRat, ratio, toReal, Nat.shiftLeft_eq, one_mul]
  rw [zpow_eq_div, ← mul_div_assoc]
  split <;> push_cast <;> rfl

/-- Exact arithmetic with the rationals that `read` takes the constants of formulas for. What
has no value is part of nothing that has one. -/
def Arithmetic.rational (read : Float → ℚ) : Arithmetic (Option ℚ) where
  constant v := some (read v)
  neg := Option.map (-·)
  apply op a b := do op.exact (← a) (← b)
  isZero a := a == some 0
  undefined := none

namespace Formula

variable {read : Float → ℚ} {formula lhs rhs : Formula}

/-- The formula comes to `a · x + b` at each rational `x`, with `a = 0` where the argument does
not occur in it. -/
def IsAffine (read : Float → ℚ) (formula : Formula) : Prop :=
  ∃ a b : ℚ, (formula.mentionsArgument = false → a = 0) ∧
    ∀ x : ℚ, formula.valueIn (.rational read) (some x) = some (a * x + b)

theorem valueIn_arith {op : Arith} {x : Option ℚ} {a b : ℚ}
    (ha : lhs.valueIn (.rational read) x = some a) (hb : rhs.valueIn (.rational read) x = some b) :
    (arith lhs op rhs).valueIn (.rational read) x = op.exact a b := by
  rw [valueIn, ha, hb]
  rfl

theorem isAffine_constant (v : Float) : IsAffine read (constant v) := by
  refine ⟨0, read v, fun _ => rfl, ?_⟩
  intro x
  rw [zero_mul, zero_add]
  rfl

theorem isAffine_argument : IsAffine read argument := by
  refine ⟨1, 0, nofun, ?_⟩
  intro x
  rw [one_mul, add_zero]
  rfl

theorem IsAffine.neg (h : IsAffine read formula) : IsAffine read (neg formula) := by
  obtain ⟨a, b, ha, hvalue⟩ := h
  refine ⟨-a, -b, ?_, ?_⟩
  · intro hnumber
    rw [ha hnumber, neg_zero]
  · intro x
    rw [valueIn, hvalue]
    exact congrArg some (by ring)

/-- Sums and differences are taken coefficient by coefficient. -/
theorem IsAffine.sum {op : Arith} (hop : op = .add ∨ op = .sub) (hl : IsAffine read lhs)
    (hr : IsAffine read rhs) : IsAffine read (arith lhs op rhs) := by
  obtain ⟨a, b, ha, hlhs⟩ := hl
  obtain ⟨c, d, hc, hrhs⟩ := hr
  -- a difference is a sum with the right side taken `-1` times
  obtain ⟨s, hs⟩ : ∃ s : ℚ, ∀ p q, op.exact p q = some (p + s * q) := by
    rcases hop with rfl | rfl
    · exact ⟨1, fun p q => congrArg some (by ring)⟩
    · exact ⟨-1, fun p q => congrArg some (by ring)⟩
  refine ⟨a + s * c, b + s * d, ?_, ?_⟩
  · intro hnumber
    rw [mentionsArgument, Bool.or_eq_false_iff] at hnumber
    rw [ha hnumber.1, hc hnumber.2, mul_zero, add_zero]
  · intro x
    rw [valueIn_arith (hlhs x) (hrhs x), hs]
    exact congrArg some (by ring)

/-- One factor is a number, so no square of the argument arises. -/
theorem IsAffine.product (hl : IsAffine read lhs) (hr : IsAffine read rhs)
    (hfactor : lhs.mentionsArgument = false ∨ rhs.mentionsArgument = false) :
    IsAffine read (arith lhs .mul rhs) := by
  obtain ⟨a, b, ha, hlhs⟩ := hl
  obtain ⟨c, d, hc, hrhs⟩ := hr
  have hsquare : a * c = 0 := by
    rcases hfactor with hnumber | hnumber
    · rw [ha hnumber, zero_mul]
    · rw [hc hnumber, mul_zero]
  refine ⟨a * d + b * c, b * d, ?_, ?_⟩
  · intro hnumber
    rw [mentionsArgument, Bool.or_eq_false_iff] at hnumber
    rw [ha hnumber.1, hc hnumber.2, zero_mul, mul_zero, add_zero]
  · intro x
    rw [valueIn_arith (hlhs x) (hrhs x)]
    refine congrArg some ?_
    calc (a * x + b) * (c * x + d) = a * c * x ^ 2 + ((a * d + b * c) * x + b * d) := by ring
      _ = (a * d + b * c) * x + b * d := by rw [hsquare, zero_mul, zero_add]

/-- The denominator is a number other than zero, so the quotient is there at each argument. -/
theorem IsAffine.quotient (hl : IsAffine read lhs) (hr : IsAffine read rhs)
    (hnumber : rhs.mentionsArgument = false)
    (hzero : ∀ x, (Arithmetic.rational read).isZero (rhs.valueIn (.rational read) x) = false) :
    IsAffine read (arith lhs .div rhs) := by
  obtain ⟨a, b, ha, hlhs⟩ := hl
  obtain ⟨c, d, hc, hrhs⟩ := hr
  rw [hc hnumber] at hrhs
  simp only [zero_mul, zero_add] at hrhs
  have hd : d ≠ 0 := by
    have hvalue : (some d == some (0 : ℚ)) = false := hrhs 0 ▸ hzero (some 0)
    simpa using hvalue
  refine ⟨a / d, b / d, ?_, ?_⟩
  · intro hnone
    rw [mentionsArgument, Bool.or_eq_false_iff] at hnone
    rw [ha hnone.1, zero_div]
  · intro x
    rw [valueIn_arith (hlhs x) (hrhs x), Arith.exact, if_neg hd]
    exact congrArg some (by ring)

/-- Admitted formulas are affine, by induction over what admits them. -/
theorem AdmittedIn.isAffine (h : formula.AdmittedIn (.rational read)) : IsAffine read formula := by
  induction h with
  | constant v => exact isAffine_constant v
  | argument => exact isAffine_argument
  | negConstant v => exact (isAffine_constant v).neg
  | negArgument => exact isAffine_argument.neg
  | sum hop _ _ ihl ihr => exact ihl.sum hop ihr
  | product _ _ hfactor ihl ihr => exact ihl.product ihr hfactor
  | quotient _ _ hnumber hzero ihl ihr => exact ihl.quotient ihr hnumber hzero

/-- **Admitted formulas are polynomials of degree at most one.** Where no operation rounds,
neither in looking at denominators nor in computing, the function of an admitted formula has the
value `a · x + b` at each rational `x`, and in degree zero `a` is zero. -/
theorem toFunctionIn_rational (read : Float → ℚ) {f : Option ℚ → Option ℚ}
    (h : formula.toFunctionIn (.rational read) = .ok f) :
    ∃ a b : ℚ, (formula.degreeIn (.rational read) = .ok 0 → a = 0) ∧
      ∀ x : ℚ, f (some x) = some (a * x + b) := by
  obtain ⟨⟨degree, hdegree⟩, rfl⟩ := toFunctionIn_eq_ok_iff.mp h
  obtain ⟨hadmitted, -⟩ := degreeIn_eq_ok_iff.mp hdegree
  obtain ⟨a, b, ha, hvalue⟩ := hadmitted.isAffine
  refine ⟨a, b, ?_, hvalue⟩
  intro hzero
  exact ha (argumentDegree_eq_zero_iff.mp (degreeIn_eq_ok_iff.mp hzero).2.symm)

/-- A quotient by a number, and a product with a number in front. -/
theorem toFunctionIn_rational_quotient :
    ∃ f, toFunctionIn (.rational Double.toRat) (.arith (.arith .argument .div (.constant 4)) .add
        (.arith (.constant 2) .mul (.arith .argument .sub (.constant 1)))) = .ok f ∧
      ∃ a b : ℚ, ∀ x : ℚ, f (some x) = some (a * x + b) := by
  have hfour : (some (Double.toRat 4) == some 0) = false := by decide +kernel
  have hadmitted : AdmittedIn (.rational Double.toRat)
      (.arith (.arith .argument .div (.constant 4)) .add
        (.arith (.constant 2) .mul (.arith .argument .sub (.constant 1)))) :=
    .sum (.inl rfl) (.quotient .argument (.constant 4) rfl fun _ => hfour)
      (.product (.constant 2) (.sum (.inr rfl) .argument (.constant 1)) (.inl rfl))
  have hf := toFunctionIn_eq_ok_iff.mpr ⟨⟨_, hadmitted.degreeIn_eq⟩, rfl⟩
  obtain ⟨a, b, -, hvalue⟩ := toFunctionIn_rational Double.toRat hf
  exact ⟨_, hf, a, b, hvalue⟩

end Formula

end PiecewiseLinear
