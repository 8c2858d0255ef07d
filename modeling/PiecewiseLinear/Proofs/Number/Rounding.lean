import PiecewiseLinear.Proofs.Double.Real

/-!
# Rounding what is a double already

A ratio that equals the magnitude of a double is rounded to that double.

- `BinaryFormat.place_eq`: the place is the binary logarithm of the ratio, less the precision.
- `BinaryFormat.significand_of_eq`: at the place of an exact value nothing is rounded.
- `Double.toNat_toBits_ofNat`: doubles are made of the bits that they are given.
- `Double.ofRatio_eq`: the double nearest to the magnitude of a double.
-/

namespace PiecewiseLinear

/-! ## Ratios scaled by powers of two -/

theorem zpow_eq_div (a : ℝ) (q : Int) : a ^ q = a ^ q.toNat / a ^ (-q).toNat := by
  rcases Int.le_total 0 q with h | h
  · obtain ⟨n, rfl⟩ := Int.eq_ofNat_of_zero_le h
    simp
  · obtain ⟨n, hn⟩ := Int.eq_ofNat_of_zero_le (Int.neg_nonneg.mpr h)
    obtain rfl : q = -n := by omega
    simp

/-- Shifting one side of a ratio or the other compares it with a power of two. -/
theorem shiftLeft_lt_shiftLeft_iff {num den : Nat} (hden : 0 < den) (q : Int) :
    num <<< (-q).toNat < den <<< q.toNat ↔ (num / den : ℝ) < 2 ^ q := by
  have hden' : (0 : ℝ) < den := Nat.cast_pos.mpr hden
  rw [zpow_eq_div, div_lt_div_iff₀ hden' (by positivity), Nat.shiftLeft_eq, Nat.shiftLeft_eq,
    mul_comm ((2 : ℝ) ^ q.toNat)]
  norm_cast

/-- Shifted apart, a numerator is a multiple of the denominator where the ratio is that multiple of
the place. -/
theorem shiftLeft_eq_shiftLeft_iff {num den m : Nat} (hden : 0 < den) (q : Int) :
    num <<< (-q).toNat = m * den <<< q.toNat ↔ (num / den : ℝ) = m * 2 ^ q := by
  have hden' : (den : ℝ) ≠ 0 := Nat.cast_ne_zero.mpr hden.ne'
  rw [zpow_eq_div, ← mul_div_assoc, div_eq_div_iff hden' (by positivity), Nat.shiftLeft_eq,
    Nat.shiftLeft_eq, mul_assoc, mul_comm ((2 : ℝ) ^ q.toNat)]
  norm_cast

theorem log_eq_of_le_of_lt {r : ℝ} {l : Int} (hle : (2 : ℝ) ^ l ≤ r) (hlt : r < 2 ^ (l + 1)) :
    Int.log 2 r = l := by
  have hr : 0 < r := (zpow_pos two_pos l).trans_le hle
  have hlog : l ≤ Int.log 2 r := (Int.zpow_le_iff_le_log one_lt_two hr).mp (by exact_mod_cast hle)
  have hlog' : Int.log 2 r < l + 1 :=
    (Int.lt_zpow_iff_log_lt one_lt_two hr).mp (by exact_mod_cast hlt)
  omega

/-- The lengths of numerator and denominator place their ratio within two binades. -/
theorem ratio_bounds {num den : Nat} (hnum : num ≠ 0) (hden : den ≠ 0) :
    (2 : ℝ) ^ ((num.log2 : Int) - den.log2 - 1) < num / den ∧
      (num / den : ℝ) < 2 ^ ((num.log2 : Int) - den.log2 + 1) := by
  have hden' : (0 : ℝ) < den := Nat.cast_pos.mpr (Nat.pos_of_ne_zero hden)
  -- each of the two lies in the binade of its length
  have hnum₁ : (2 : ℝ) ^ (num.log2 : Int) ≤ num := by exact_mod_cast Nat.log2_self_le hnum
  have hnum₂ : (num : ℝ) < 2 ^ (num.log2 + 1 : Int) := by exact_mod_cast Nat.lt_log2_self
  have hden₁ : (2 : ℝ) ^ (den.log2 : Int) ≤ den := by exact_mod_cast Nat.log2_self_le hden
  have hden₂ : (den : ℝ) < 2 ^ (den.log2 + 1 : Int) := by exact_mod_cast Nat.lt_log2_self
  constructor
  · rw [lt_div_iff₀ hden']
    calc (2 : ℝ) ^ ((num.log2 : Int) - den.log2 - 1) * den
        < 2 ^ ((num.log2 : Int) - den.log2 - 1) * 2 ^ (den.log2 + 1 : Int) := by gcongr
      _ = 2 ^ (num.log2 : Int) := by
        rw [← zpow_add₀ two_ne_zero]
        congr 1
        omega
      _ ≤ num := hnum₁
  · rw [div_lt_iff₀ hden']
    calc (num : ℝ) < 2 ^ (num.log2 + 1 : Int) := hnum₂
      _ = 2 ^ ((num.log2 : Int) - den.log2 + 1) * 2 ^ (den.log2 : Int) := by
        rw [← zpow_add₀ two_ne_zero]
        congr 1
        omega
      _ ≤ 2 ^ ((num.log2 : Int) - den.log2 + 1) * den := by gcongr

/-! ## Places and significands -/

namespace BinaryFormat

/-- The place of a ratio leaves as many bits before the cut as the format has, where the format
goes so far. -/
theorem place_eq (format : BinaryFormat) {num den : Nat} (hnum : num ≠ 0) (hden : den ≠ 0) :
    format.place num den =
      max (Int.log 2 (num / den : ℝ) + 1 - format.precision) format.leastPlace := by
  obtain ⟨hlower, hupper⟩ := ratio_bounds hnum hden
  unfold place
  simp only [sub_add_cancel]
  congr 1
  -- of the two binades that the lengths leave the comparison picks the right one
  split_ifs with hlt
  · rw [shiftLeft_lt_shiftLeft_iff (Nat.pos_of_ne_zero hden)] at hlt
    rw [log_eq_of_le_of_lt hlower.le (by rwa [sub_add_cancel])]
    omega
  · rw [shiftLeft_lt_shiftLeft_iff (Nat.pos_of_ne_zero hden), not_lt] at hlt
    rw [log_eq_of_le_of_lt hlt hupper]
    omega

theorem roundQuotient_mul {m den : Nat} (hden : 0 < den) : roundQuotient (m * den) den = m := by
  unfold roundQuotient
  simp only [Nat.mul_mod_left, Nat.mul_div_cancel m hden]
  rw [if_pos (.inl (by omega))]

/-- A ratio that is a whole multiple of the place is rounded to that multiple. -/
theorem significand_of_eq {num den m : Nat} {q : Int} (hden : 0 < den)
    (h : (num / den : ℝ) = m * 2 ^ q) : significand q num den = m := by
  have hpos : 0 < den <<< q.toNat := by
    rw [Nat.shiftLeft_eq]
    positivity
  rw [significand, (shiftLeft_eq_shiftLeft_iff hden q).mpr h, roundQuotient_mul hpos]

end BinaryFormat

namespace Double

open Float.Model (Format)

/-! ## Doubles from bits -/

/-- Bits up to those of infinity are no NaN, and a double keeps them. -/
theorem toBits_ofNat {n : Nat} (h : n ≤ infinityBits) :
    (Float.ofBits (UInt64.ofNat n)).toBits = UInt64.ofNat n := by
  rw [infinityBits_eq] at h
  have hb : (UInt64.ofNat n).toBitVec.toNat = n := by
    rw [UInt64.toBitVec_ofNat', BitVec.toNat_ofNat]
    omega
  have hvalid : Format.binary64.Valid (UInt64.ofNat n).toBitVec := by
    constructor
    intro hexponent hmantissa
    -- all bits of the exponent and one of the fraction make more than infinity
    have he := toNat_unpackExponent (UInt64.ofNat n).toBitVec
    have hm := toNat_unpackMantissa (UInt64.ofNat n).toBitVec
    rw [hexponent, hb, binade_eq] at he
    rw [← BitVec.toNat_inj.ne, hm, hb, binade_eq] at hmantissa
    simp at he hmantissa
    omega
  exact congrArg Float.toBits (Float.ofBits_toBits ⟨⟨UInt64.ofNat n, hvalid⟩⟩)

theorem toNat_toBits_ofNat {n : Nat} (h : n ≤ infinityBits) :
    (Float.ofBits (UInt64.ofNat n)).toBits.toNat = n := by
  rw [toBits_ofNat h, UInt64.toNat_ofNat']
  rw [infinityBits_eq] at h
  omega

theorem isNegative_ofNat {n : Nat} (h : n ≤ infinityBits) :
    isNegative (Float.ofBits (UInt64.ofNat n)) = false := by
  rw [isNegative, toNat_toBits_ofNat h, decide_eq_false_iff_not, signBit_eq]
  rw [infinityBits_eq] at h
  omega

theorem toNat_toBits_of_not_isNegative {v : Float} (h : isNegative v = false) :
    v.toBits.toNat = magnitudeBits v := by
  rw [isNegative, decide_eq_false_iff_not, not_le] at h
  exact (Nat.mod_eq_of_lt h).symm

/-- Doubles without a sign are known by their magnitude. -/
theorem eq_of_magnitudeBits_eq {a b : Float} (ha : isNegative a = false)
    (hb : isNegative b = false) (h : magnitudeBits a = magnitudeBits b) : a = b := by
  rw [← Float.toBits_inj, ← UInt64.toNat_inj, toNat_toBits_of_not_isNegative ha,
    toNat_toBits_of_not_isNegative hb, h]

theorem magnitudeBits_lt {v : Float} (h : v.isFinite = true) : magnitudeBits v < infinityBits := by
  obtain ⟨hnan, hinf⟩ := (isFinite_iff v).mp h
  have hle := natAbs_rank_le hnan
  have hne := mt (isInf_iff_rank hnan).mpr (by rw [hinf]; exact Bool.false_ne_true)
  rw [natAbs_rank] at hle hne
  omega

/-! ## Rounding the magnitude of a double -/

/-- The shape of the significand and the place of a magnitude: the significand is full unless
the place is the last one. -/
structure IsParts (bits m : Nat) (q : Int) : Prop where
  significand_lt : m < 2 ^ 53
  place_ge : -1074 ≤ q
  full : q = -1074 ∨ 2 ^ 52 ≤ m
  bits_eq : (q + 1074).toNat * binade + m = bits

/-- Taking a double apart gives a significand and a place that have the bits of its magnitude. -/
theorem isParts_parts (v : Float) : IsParts (magnitudeBits v) (parts v).1 (parts v).2 := by
  unfold parts
  dsimp only
  rw [binade_eq]
  split_ifs with h
  · refine ⟨by omega, le_refl _, .inl rfl, ?_⟩
    simp
  · refine ⟨by dsimp only; omega, by dsimp only; omega, .inr (by dsimp only; omega), ?_⟩
    dsimp only
    rw [binade_eq]
    omega

/-- A full significand has the place that rounding looks for. -/
theorem place_of_isParts {bits num den m : Nat} {q : Int} (h : IsParts bits m q) (hm : m ≠ 0)
    (hnum : num ≠ 0) (hden : den ≠ 0) (hratio : (num / den : ℝ) = m * 2 ^ q) :
    BinaryFormat.double.place num den = q := by
  obtain ⟨hlt, hge, hfull, -⟩ := h
  have hlt' : (num / den : ℝ) < 2 ^ (53 + q) := by
    rw [hratio, zpow_add₀ two_ne_zero]
    gcongr
    exact_mod_cast hlt
  rw [BinaryFormat.place_eq _ hnum hden]
  show max (Int.log 2 (num / den : ℝ) + 1 - 53) (-1074) = q
  by_cases hfull' : 2 ^ 52 ≤ m
  · -- a full significand settles the logarithm
    have hle : (2 : ℝ) ^ (52 + q) ≤ num / den := by
      rw [hratio, zpow_add₀ two_ne_zero]
      gcongr
      exact_mod_cast hfull'
    have hlog : Int.log 2 (num / den : ℝ) = 52 + q := by
      refine log_eq_of_le_of_lt hle (hlt'.trans_eq ?_)
      congr 1
      omega
    omega
  · -- with fewer bits the logarithm only bounds the place, and the last place is taken
    have hpos : (0 : ℝ) < num / den := by
      rw [hratio]
      positivity
    have hlog : Int.log 2 (num / den : ℝ) < 53 + q :=
      (Int.lt_zpow_iff_log_lt one_lt_two hpos).mp (by exact_mod_cast hlt')
    have hlast := hfull.resolve_right hfull'
    omega

theorem toReal_of_not_isNegative {v : Float} (h : isNegative v = false) :
    toReal v = (parts v).1 * 2 ^ (parts v).2 := by
  unfold toReal
  simp only [h, Bool.false_eq_true, if_false]

theorem ofSignificand_parts {v : Float} (hfinite : v.isFinite = true)
    (hsign : isNegative v = false) : ofSignificand (parts v).1 (parts v).2 = v := by
  rw [ofSignificand, (isParts_parts v).bits_eq, min_eq_right (magnitudeBits_lt hfinite).le,
    ← toNat_toBits_of_not_isNegative hsign, UInt64.ofNat_toNat, Float.ofBits_toBits]

/-- Without a sign, only one double stands for zero. -/
theorem eq_zero_of_toReal_eq_zero {v : Float} (hsign : isNegative v = false)
    (h : toReal v = 0) : v = zero := by
  refine eq_of_magnitudeBits_eq hsign (by decide) ?_
  have hzero : (parts v).1 = 0 := by
    rw [toReal_of_not_isNegative hsign] at h
    exact_mod_cast (mul_eq_zero.mp h).resolve_right (zpow_ne_zero _ two_ne_zero)
  have hparts := isParts_parts v
  have hbits := hparts.bits_eq
  rw [hzero, hparts.full.resolve_right (by omega)] at hbits
  exact hbits.symm

/-- What equals a finite double without a sign is rounded to that double. -/
theorem ofRatio_eq {v : Float} (hfinite : v.isFinite = true) (hsign : isNegative v = false)
    {num den : Nat} (hden : den ≠ 0) (h : (num / den : ℝ) = toReal v) : ofRatio num den = v := by
  unfold ofRatio
  dsimp only
  split_ifs with hnum
  · rw [hnum, Nat.cast_zero, zero_div] at h
    exact (eq_zero_of_toReal_eq_zero hsign h.symm).symm
  · have hratio := h.trans (toReal_of_not_isNegative hsign)
    have hm : (parts v).1 ≠ 0 := by
      intro hm
      rw [hm, Nat.cast_zero, zero_mul, div_eq_zero_iff] at hratio
      exact hratio.elim (Nat.cast_ne_zero.mpr hnum) (Nat.cast_ne_zero.mpr hden)
    rw [place_of_isParts (isParts_parts v) hm hnum hden hratio,
      BinaryFormat.significand_of_eq (Nat.pos_of_ne_zero hden) hratio,
      ofSignificand_parts hfinite hsign]

/-- The least magnitude above zero bounds the others from below. -/
theorem le_toReal {v : Float} (hsign : isNegative v = false) (h : toReal v ≠ 0) :
    (2 : ℝ) ^ (-1074 : Int) ≤ toReal v := by
  rw [toReal_of_not_isNegative hsign] at h ⊢
  have hone : (1 : ℝ) ≤ (parts v).1 := by
    exact_mod_cast Nat.one_le_iff_ne_zero.mpr (Nat.cast_ne_zero.mp (mul_ne_zero_iff.mp h).1)
  calc (2 : ℝ) ^ (-1074 : Int) ≤ 2 ^ (parts v).2 :=
        zpow_le_zpow_right₀ one_le_two (isParts_parts v).place_ge
    _ ≤ (parts v).1 * 2 ^ (parts v).2 := le_mul_of_one_le_left (zpow_pos two_pos _).le hone

/-- Finite magnitudes stay below `2 ^ 1024`: a significand has 53 bits and its place is 971 at
most. -/
theorem toReal_lt {v : Float} (hfinite : v.isFinite = true) (hsign : isNegative v = false) :
    toReal v < 2 ^ (1024 : Int) := by
  obtain ⟨hlt, -, hfull, hbits⟩ := isParts_parts v
  have hplace : (parts v).2 ≤ 971 := by
    have hfinite' := magnitudeBits_lt hfinite
    rw [infinityBits_eq, ← hbits, binade_eq] at hfinite'
    omega
  rw [toReal_of_not_isNegative hsign]
  calc ((parts v).1 : ℝ) * 2 ^ (parts v).2 < 2 ^ (53 : Int) * 2 ^ (parts v).2 := by
        gcongr
        exact_mod_cast hlt
    _ ≤ 2 ^ (53 : Int) * 2 ^ (971 : Int) := by
        gcongr
        · exact one_le_two
    _ = 2 ^ (1024 : Int) := (zpow_add₀ two_ne_zero _ _).symm

/-- Rounding gives no sign. -/
theorem isNegative_ofRatio (num den : Nat) : isNegative (ofRatio num den) = false := by
  unfold ofRatio
  split_ifs
  · decide
  · exact isNegative_ofNat (min_le_left _ _)

end Double

end PiecewiseLinear
