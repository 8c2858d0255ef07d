import PiecewiseLinear.Number.Layout
import PiecewiseLinear.Proofs.Number.Rounding

/-!
# Decimals as reals

The double nearest to a decimal depends on the real that the decimal denotes, and the decimal
in print for a double reads back as that double.

- `Decimal.toReal`: the real that a decimal denotes.
- `Decimal.trimmed_eq_of_toReal_eq`: one real has one decimal without trailing zeros.
- `Decimal.toFloat_eq`: the double nearest to the real of a double.
- `Decimal.toFloat_shortest`: the decimal in print reads back.
-/

namespace PiecewiseLinear.Decimal

/-- The real that a decimal denotes. -/
noncomputable def toReal (d : Decimal) : ℝ := d.coefficient * 10 ^ d.exponent

theorem ten_zpow_pos (q : Int) : (0 : ℝ) < 10 ^ q := zpow_pos (by norm_num) q

theorem toReal_eq_zero_iff {d : Decimal} : d.toReal = 0 ↔ d.coefficient = 0 := by
  rw [toReal, mul_eq_zero, or_iff_left (ten_zpow_pos _).ne', Nat.cast_eq_zero]

/-! ## Trailing zeros -/

/-- Moving zeros of the coefficient into the exponent keeps the real that a decimal denotes. -/
theorem toReal_trimmedUpTo (fuel : Nat) (d : Decimal) : (trimmedUpTo fuel d).toReal = d.toReal := by
  induction fuel generalizing d with
  | zero => rfl
  | succ fuel ih =>
    rw [trimmedUpTo]
    split_ifs with hzero
    · have hten : (d.coefficient : ℝ) = (d.coefficient / 10 : Nat) * 10 := by
        exact_mod_cast (Nat.div_mul_cancel (Nat.dvd_of_mod_eq_zero hzero)).symm
      rw [ih, toReal, toReal, hten, zpow_add_one₀ (by norm_num), mul_assoc, mul_comm (10 ^ _)]
    · rfl

theorem toReal_trimmed (d : Decimal) : d.trimmed.toReal = d.toReal := by
  unfold trimmed
  split_ifs with hzero
  · rw [toReal_eq_zero_iff.mpr hzero]
    exact toReal_eq_zero_iff.mpr rfl
  · exact toReal_trimmedUpTo _ d

/-- A coefficient with so many binary digits has no more trailing zeros than that. -/
theorem trimmedUpTo_mod_ne {fuel : Nat} {d : Decimal} (hpos : 0 < d.coefficient)
    (hlt : d.coefficient < 2 ^ (fuel + 1)) : (trimmedUpTo fuel d).coefficient % 10 ≠ 0 := by
  induction fuel generalizing d with
  | zero =>
    show d.coefficient % 10 ≠ 0
    omega
  | succ fuel ih =>
    rw [trimmedUpTo]
    split_ifs with hzero
    · apply ih
      · show 0 < d.coefficient / 10
        omega
      · show d.coefficient / 10 < _
        rw [pow_succ] at hlt
        omega
    · exact hzero

/-- Without trailing zeros the coefficient is settled by the real, and so is the exponent. -/
theorem eq_of_toReal_eq {d e : Decimal} (hd : d.coefficient % 10 ≠ 0)
    (he : e.coefficient % 10 ≠ 0) (hle : d.exponent ≤ e.exponent) (h : d.toReal = e.toReal) :
    d = e := by
  obtain ⟨n, hn⟩ := Int.eq_ofNat_of_zero_le (sub_nonneg.mpr hle)
  have hexponent : e.exponent = d.exponent + n := by omega
  have hcoefficient : d.coefficient = e.coefficient * 10 ^ n := by
    rw [toReal, toReal, hexponent, zpow_add₀ (by norm_num), mul_comm ((10 : ℝ) ^ d.exponent),
      ← mul_assoc] at h
    exact_mod_cast mul_right_cancel₀ (ten_zpow_pos d.exponent).ne' h
  cases n with
  | zero =>
    cases d
    cases e
    simp_all
  | succ n =>
    -- the smaller exponent would leave a zero at the end of the coefficient
    rw [hcoefficient, pow_succ, ← mul_assoc] at hd
    exact absurd (Nat.mul_mod_left _ _) hd

/-- One real has one decimal without trailing zeros. -/
theorem trimmed_eq_of_toReal_eq {d e : Decimal} (h : d.toReal = e.toReal) :
    d.trimmed = e.trimmed := by
  have htrimmed : d.trimmed.toReal = e.trimmed.toReal := by rw [toReal_trimmed, toReal_trimmed, h]
  have hzero : d.coefficient = 0 ↔ e.coefficient = 0 := by
    rw [← toReal_eq_zero_iff, ← toReal_eq_zero_iff, h]
  unfold trimmed at htrimmed ⊢
  by_cases hd : d.coefficient = 0
  · rw [if_pos hd, if_pos (hzero.mp hd)]
  · have he := mt hzero.mpr hd
    rw [if_neg hd, if_neg he] at htrimmed ⊢
    have hd' := trimmedUpTo_mod_ne (Nat.pos_of_ne_zero hd) Nat.lt_log2_self
    have he' := trimmedUpTo_mod_ne (Nat.pos_of_ne_zero he) Nat.lt_log2_self
    rcases le_total (trimmedUpTo d.coefficient.log2 d).exponent
      (trimmedUpTo e.coefficient.log2 e).exponent with hle | hle
    · exact eq_of_toReal_eq hd' he' hle htrimmed
    · exact (eq_of_toReal_eq he' hd' hle htrimmed.symm).symm

theorem toFloat_congr {d e : Decimal} (h : d.toReal = e.toReal) : d.toFloat = e.toFloat := by
  rw [toFloat, toFloat, trimmed_eq_of_toReal_eq h]

/-! ## The double nearest to a decimal -/

theorem toReal_eq_div (d : Decimal) :
    d.toReal = (d.coefficient * Nat.pow 10 d.exponent.toNat : Nat) /
      (Nat.pow 10 (-d.exponent).toNat : Nat) := by
  rw [toReal, zpow_eq_div, ← mul_div_assoc, Nat.pow_eq, Nat.pow_eq]
  push_cast
  rfl

/-- A decimal whose powers are not computed exceeds every double. -/
theorem le_toReal_of_exponent {d : Decimal} (hpos : d.coefficient ≠ 0) (h : 400 < d.exponent) :
    (2 : ℝ) ^ (1024 : Int) ≤ d.toReal := by
  have hone : (1 : ℝ) ≤ d.coefficient := by exact_mod_cast Nat.pos_of_ne_zero hpos
  have hpowers : 2 ^ 1024 ≤ 10 ^ 400 := by decide +kernel
  calc (2 : ℝ) ^ (1024 : Int) ≤ 10 ^ (400 : Int) := by exact_mod_cast hpowers
    _ ≤ 10 ^ d.exponent := zpow_le_zpow_right₀ (by norm_num) h.le
    _ ≤ d.toReal := le_mul_of_one_le_left (ten_zpow_pos _).le hone

/-- A decimal that is taken for zero is below every double. -/
theorem toReal_lt_of_exponent {d : Decimal}
    (h : (d.coefficient.log2 : Int) + 1081 < 3 * -d.exponent) :
    d.toReal < 2 ^ (-1074 : Int) := by
  obtain ⟨n, hn⟩ := Int.eq_ofNat_of_zero_le (show 0 ≤ -d.exponent by omega)
  have hexponent : d.exponent = -n := by omega
  have hcoefficient : (d.coefficient : ℝ) < 2 ^ (d.coefficient.log2 + 1 : Int) := by
    exact_mod_cast Nat.lt_log2_self
  -- three binary digits for each decimal one are too few
  have height : (10 : ℝ) ^ (-n : Int) ≤ 2 ^ (-(3 * n) : Int) := by
    rw [zpow_neg, zpow_neg, zpow_mul]
    gcongr
    exact_mod_cast Nat.pow_le_pow_left (show 8 ≤ 10 by decide) n
  calc d.toReal = d.coefficient * 10 ^ (-n : Int) := by rw [toReal, hexponent]
    _ < 2 ^ (d.coefficient.log2 + 1 : Int) * 10 ^ (-n : Int) := by
      gcongr
    _ ≤ 2 ^ (d.coefficient.log2 + 1 : Int) * 2 ^ (-(3 * n) : Int) := by gcongr
    _ = 2 ^ ((d.coefficient.log2 : Int) + 1 + -(3 * n)) := (zpow_add₀ two_ne_zero _ _).symm
    _ ≤ 2 ^ (-1074 : Int) := zpow_le_zpow_right₀ one_le_two (by omega)

/-- Within the range of finite magnitudes, rounding a decimal takes none of the shortcuts for very
large and very small ones. -/
theorem roundWith_eq {d : Decimal} (hle : (2 : ℝ) ^ (-1074 : Int) ≤ d.toReal)
    (hlt : d.toReal < 2 ^ (1024 : Int)) (round : Nat → Nat → Float) :
    d.roundWith round =
      round (d.coefficient * Nat.pow 10 d.exponent.toNat) (Nat.pow 10 (-d.exponent).toNat) := by
  have hpos : d.coefficient ≠ 0 := by
    rw [ne_eq, ← toReal_eq_zero_iff]
    exact ((zpow_pos two_pos _).trans_le hle).ne'
  have hlarge : ¬ 400 < d.exponent := fun h => (le_toReal_of_exponent hpos h).not_gt hlt
  have hsmall : ¬ (d.coefficient.log2 : Int) + 1081 < 3 * -d.exponent :=
    fun h => hle.not_gt (toReal_lt_of_exponent h)
  rw [roundWith, if_neg hpos, if_neg hlarge, if_neg hsmall]

/-- A double is the nearest one to the real that it stands for. -/
theorem toFloat_eq {d : Decimal} {v : Float} (hfinite : v.isFinite = true)
    (hsign : Double.isNegative v = false) (h : d.toReal = Double.toReal v) : d.toFloat = v := by
  have hreal : d.trimmed.toReal = Double.toReal v := (toReal_trimmed d).trans h
  unfold toFloat
  by_cases hzero : Double.toReal v = 0
  · rw [hzero, toReal_eq_zero_iff] at hreal
    rw [roundWith, if_pos hreal]
    exact (Double.eq_zero_of_toReal_eq_zero hsign hzero).symm
  · have hle := Double.le_toReal hsign hzero
    have hlt := Double.toReal_lt hfinite hsign
    rw [← hreal] at hle hlt
    rw [roundWith_eq hle hlt]
    refine Double.ofRatio_eq hfinite hsign ?_ ((toReal_eq_div _).symm.trans hreal)
    exact (Nat.pow_pos (by decide)).ne'

theorem isNegative_toFloat (d : Decimal) : Double.isNegative d.toFloat = false := by
  rw [toFloat, roundWith]
  split_ifs
  · decide
  · decide
  · decide
  · exact Double.isNegative_ofRatio _ _

/-! ## The decimal in print -/

/-- The exact expansion of a magnitude denotes it: a binary fraction is a decimal one. -/
theorem toReal_exact {v : Float} (hsign : Double.isNegative v = false) :
    (exact v).toReal = Double.toReal v := by
  rw [exact, toReal_trimmed, Double.toReal_of_not_isNegative hsign, toReal]
  generalize (Double.parts v).1 = m
  generalize (Double.parts v).2 = q
  dsimp only
  rw [Nat.shiftLeft_eq, Nat.pow_eq]
  rcases Int.le_total 0 q with hq | hq
  · obtain ⟨n, rfl⟩ := Int.eq_ofNat_of_zero_le hq
    simp
  · obtain ⟨n, hn⟩ := Int.eq_ofNat_of_zero_le (Int.neg_nonneg.mpr hq)
    obtain rfl : q = -n := by omega
    -- a power of ten takes the fives back and leaves the twos
    have hten : (5 : ℝ) ^ n * (10 ^ n)⁻¹ = (2 ^ n)⁻¹ := by
      rw [← inv_pow, ← inv_pow, ← mul_pow]
      norm_num
    simp [mul_assoc, hten]

/-- What the search finds reads back, since that is what it looks for. -/
theorem readsBack_of_search {tie : Tie} {v : Float} {count : Nat} {unit : Int} {d : Decimal}
    (h : search tie v count unit = some d) : readsBack v d = true := by
  induction count generalizing unit with
  | zero => cases h
  | succ count ih =>
    rw [search] at h
    split at h
    · next found hfound =>
      rw [← Option.some.inj h]
      exact List.find?_some hfound
    · exact ih h

/-- **The decimal in print reads back.** -/
theorem toFloat_shortest {v : Float} (tie : Tie) (hfinite : v.isFinite = true)
    (hsign : Double.isNegative v = false) : (shortest tie v).toFloat = v := by
  unfold shortest
  split_ifs with hzero
  · exact Double.eq_of_magnitudeBits_eq (by decide) hsign (Eq.trans (by decide) hzero.symm)
  · split
    · next d hd =>
      rw [toFloat_congr (toReal_trimmed d)]
      exact Double.eq_of_magnitudeBits_eq (isNegative_toFloat d) hsign
        (eq_of_beq (readsBack_of_search hd))
    · -- without a shorter one the exact decimal is printed
      exact toFloat_eq hfinite hsign (toReal_exact hsign)

end PiecewiseLinear.Decimal
