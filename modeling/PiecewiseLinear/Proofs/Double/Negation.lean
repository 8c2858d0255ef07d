import PiecewiseLinear.Proofs.Double.Real

/-!
# Negated doubles

Negating a double changes its sign bit alone, so the negated double stands for the negative of
the point that the double stands for.

- `Double.Reads.toNat_pack`: what is read from bits is packed into these bits again.
- `Double.isNegative_neg`, `Double.magnitudeBits_neg`: the bits of a negated double.
- `Double.isNaN_neg`, `Double.toEReal_neg`: what a negated double stands for.
-/

namespace PiecewiseLinear.Double

open Float.Model (Format UnpackedFloat)
open Float.Model.UnpackedFloat

/-! ## Packing -/

/-- The bits of a sign. -/
def signBits : Sign → Nat
  | .negative => signBit
  | .positive => 0

/-- The bits of a packed double are its sign, its exponent and its mantissa, side by side. -/
theorem toNat_packComponents (s : Sign) (e : BitVec 11) (m : BitVec 52) :
    (packComponents Format.binary64 s e m).toNat = signBits s + e.toNat * binade + m.toNat := by
  have hm : m.toNat < 2 ^ 52 := m.isLt
  have he : e.toNat < 2 ^ 11 := e.isLt
  have happend : (packComponents Format.binary64 s e m).toNat =
      ((s.toBitVec ++ e) ++ m).toNat := rfl
  rw [happend, BitVec.toNat_append, BitVec.toNat_append, ← Nat.shiftLeft_add_eq_or_of_lt hm,
    ← Nat.shiftLeft_add_eq_or_of_lt he, binade_eq]
  cases s with
  | negative =>
    simp only [signBits, signBit_eq, Sign.toBitVec, Nat.shiftLeft_eq]
    norm_num
    ring
  | positive =>
    simp only [signBits, Sign.toBitVec, Nat.shiftLeft_eq]
    norm_num

theorem toNat_packedInfinity (s : Sign) :
    (packedInfinity Format.binary64 s).toNat = signBits s + infinityBits := by
  cases s <;> decide

theorem toNat_packedZero (s : Sign) : (packedZero Format.binary64 s).toNat = signBits s := by
  cases s <;> decide

/-- What is read from bits is packed into these bits again. -/
theorem Reads.toNat_pack {s : Sign} {bits : Nat} {u : UnpackedFloat} (h : Reads s bits u)
    (hu : u ≠ .notANumber) : (pack Format.binary64 u).toNat = signBits s + bits := by
  cases u with
  | notANumber => exact absurd rfl hu
  | infinity t =>
    obtain ⟨rfl, rfl⟩ := h
    exact toNat_packedInfinity t
  | zero t =>
    obtain ⟨rfl, rfl⟩ := h
    exact toNat_packedZero t
  | finite t m e hm =>
    obtain ⟨rfl, hlt, hle, hge, hleading, hbits⟩ := h
    rw [binade_eq] at hlt hleading hbits
    have hexponent : (e + Format.binary64.exponentBias +
        Format.binary64.mantissaBitsWithoutImplicit).toNat = (e + 1075).toNat := by
      show (e + (1023 : Nat) + (52 : Nat)).toNat = _
      omega
    have hfits : ¬ 2 ^ Format.binary64.exponentBits ≤ (e + 1075).toNat + 1 := by
      show ¬ 2 ^ 11 ≤ (e + 1075).toNat + 1
      omega
    show (if 2 ^ Format.binary64.exponentBits ≤ (e + Format.binary64.exponentBias +
        Format.binary64.mantissaBitsWithoutImplicit).toNat + 1 then _
      else if m.log2 + 1 = 53 then
        packComponents Format.binary64 t (BitVec.ofNat 11 (e + Format.binary64.exponentBias +
          Format.binary64.mantissaBitsWithoutImplicit).toNat) (BitVec.ofNat 52 m)
      else packComponents Format.binary64 t (BitVec.ofNat 11 0) (BitVec.ofNat 52 m)).toNat = _
    rw [hexponent, if_neg hfits]
    by_cases hlog : m.log2 + 1 = 53
    · -- the leading bit of the significand is left out
      have hm52 : 2 ^ 52 ≤ m := (Nat.le_log2 hm.ne').mp (by omega)
      rw [if_pos hlog, toNat_packComponents, BitVec.toNat_ofNat, BitVec.toNat_ofNat, binade_eq]
      omega
    · have hm52 : m < 2 ^ 52 := by
        by_contra hge
        have h₁ := (Nat.le_log2 hm.ne').mpr (not_lt.mp hge)
        have h₂ := (Nat.log2_lt hm.ne').mpr (show m < 2 ^ 53 by omega)
        omega
      rw [if_neg hlog, toNat_packComponents, BitVec.toNat_ofNat, BitVec.toNat_ofNat, binade_eq]
      omega

/-! ## The bits of a negated double -/

/-- A negated double is read off the same magnitude with the other sign. -/
theorem Reads.neg {s : Sign} {bits : Nat} {u : UnpackedFloat} (h : Reads s bits u) :
    Reads (-s) bits u.neg := by
  cases u with
  | notANumber => exact h
  | infinity t => exact ⟨congrArg (-·) h.1, h.2⟩
  | zero t => exact ⟨congrArg (-·) h.1, h.2⟩
  | finite t m e hm => exact ⟨congrArg (-·) h.1, h.2⟩

theorem neg_ne_notANumber {u : UnpackedFloat} (h : u ≠ .notANumber) : u.neg ≠ .notANumber := by
  cases u with
  | notANumber => exact absurd rfl h
  | infinity t | zero t | finite t m e hm => exact nofun

/-- Negating what is no NaN changes the sign bit alone. -/
theorem toNat_toBits_neg {v : Float} (h : v.isNaN = false) :
    (-v).toBits.toNat = signBits (-sign v) + magnitudeBits v :=
  (reads_unpack v).neg.toNat_pack (neg_ne_notANumber (unpack_ne_notANumber h))

theorem magnitudeBits_le {v : Float} (h : v.isNaN = false) : magnitudeBits v ≤ infinityBits :=
  (reads_unpack v).le_infinityBits (unpack_ne_notANumber h)

/-- Negating what is no NaN keeps its magnitude. -/
theorem magnitudeBits_neg {v : Float} (h : v.isNaN = false) :
    magnitudeBits (-v) = magnitudeBits v := by
  have hle := magnitudeBits_le h
  rw [magnitudeBits, toNat_toBits_neg h]
  rw [infinityBits_eq] at hle
  cases -sign v with
  | negative =>
    rw [signBits, signBit_eq]
    omega
  | positive =>
    rw [signBits, signBit_eq]
    omega

theorem sign_neg {v : Float} (h : v.isNaN = false) : sign (-v) = -sign v := by
  have hle := magnitudeBits_le h
  rw [sign, isNegative, toNat_toBits_neg h]
  rw [infinityBits_eq] at hle
  cases -sign v with
  | negative =>
    rw [signBits, signBit_eq, if_pos (by simp)]
  | positive =>
    rw [signBits, signBit_eq, if_neg (by simp; omega)]

/-- The bits of a NaN are those beyond infinity. -/
theorem isNaN_iff_magnitudeBits {v : Float} : v.isNaN = true ↔ infinityBits < magnitudeBits v := by
  constructor
  · intro h
    have hreads := reads_unpack v
    rwa [(isNaN_iff_unpack v).mp h] at hreads
  · intro hlt
    by_contra h
    exact (magnitudeBits_le (Bool.not_eq_true _ ▸ h)).not_gt hlt

/-- The negative of a NaN is a NaN, and no other double has one. -/
@[simp] theorem isNaN_neg (v : Float) : (-v).isNaN = v.isNaN := by
  cases h : v.isNaN with
  | true =>
    have hneg : (-v).toModel = Float.Model.pack v.toModel.unpack.neg := rfl
    have hpack : (-v).toModel = Float.Model.pack .notANumber := by
      rw [hneg, (isNaN_iff_unpack v).mp h]
      rfl
    show (-v).toModel.isNaN = true
    rw [hpack]
    decide
  | false =>
    rw [← Bool.not_eq_true, isNaN_iff_magnitudeBits, magnitudeBits_neg h,
      ← isNaN_iff_magnitudeBits, h]
    exact Bool.false_ne_true

theorem rank_neg {v : Float} (h : v.isNaN = false) : rank (-v) = -rank v := by
  rw [rank, rank, sign_neg h, magnitudeBits_neg h]
  cases sign v with
  | negative => exact (neg_neg _).symm
  | positive => rfl

/-! ## The point of a negated double -/

theorem rankValue_neg (r : Int) : rankValue (-r) = -rankValue r := by
  unfold rankValue
  rw [Int.natAbs_neg]
  rcases lt_trichotomy r 0 with h | rfl | h
  · rw [if_neg (by omega), if_pos h, neg_neg]
  · simp [magnitude_zero]
  · rw [if_pos (by omega), if_neg (by omega)]

/-- Opposite ranks lie at opposite points. -/
theorem rankPoint_neg {r : Int} : rankPoint (-r) = -rankPoint r := by
  have hpos : (0 : Int) < infinityBits := by decide
  unfold rankPoint
  by_cases htop : (infinityBits : Int) ≤ r
  · rw [if_neg (by omega), if_pos (by omega), if_pos htop, EReal.neg_top]
  · by_cases hbot : r ≤ -infinityBits
    · rw [if_pos (by omega), if_neg htop, if_pos hbot, EReal.neg_bot]
    · rw [if_neg (by omega), if_neg (by omega), if_neg htop, if_neg hbot, rankValue_neg,
        EReal.coe_neg]

/-- A negated double stands for the negative of the point. -/
theorem toEReal_neg {v : Float} (h : v.isNaN = false) : toEReal (-v) = -toEReal v := by
  rw [toEReal_eq_rankPoint ((isNaN_neg v).trans h), toEReal_eq_rankPoint h, rank_neg h,
    rankPoint_neg]

end PiecewiseLinear.Double
