import Mathlib
import PiecewiseLinear.Number.Rounding

/-!
# The order of doubles

Comparing two doubles is comparing two integers.

- `Double.rank`: the bits of the magnitude of a double, with its sign. Both zeros have
  rank zero, and the infinities the least and the greatest rank of a number.
- `Double.Reads`: how the bits of a magnitude are read as an infinity, a zero or a
  significand and a place.
- `Double.lt_iff_rank_lt`, `Double.beq_iff_rank_eq`, `Double.le_iff_rank_le`: comparisons
  of numbers are comparisons of ranks. Where one side is NaN none of them holds.
- `Double.eq_of_rank_eq`: a number other than negative zero is known by its rank.
-/

namespace PiecewiseLinear.Double

open Float.Model (Format UnpackedFloat)
open Float.Model.UnpackedFloat

/-! ## The fields of a double -/

theorem binade_eq : binade = 4503599627370496 := rfl

theorem signBit_eq : signBit = 9223372036854775808 := rfl

theorem infinityBits_eq : infinityBits = 9218868437227405312 := rfl

/-- The sign of a double. -/
def sign (v : Float) : Sign := if isNegative v then .negative else .positive

/-- The bits of the magnitude of a double, with its sign. -/
def rank (v : Float) : Int := (sign v).apply (magnitudeBits v)

theorem toNat_unpackMantissa (b : BitVec 64) :
    (@unpackMantissa Format.binary64 b).toNat = b.toNat % binade := by
  simp [unpackMantissa, BitVec.extractLsb, BitVec.extractLsb']
  rfl

theorem toNat_unpackExponent (b : BitVec 64) :
    (@unpackExponent Format.binary64 b).toNat = b.toNat / binade % 2048 := by
  simp [unpackExponent, BitVec.extractLsb, BitVec.extractLsb', Nat.shiftRight_eq_div_pow]
  rfl

theorem toNat_unpackSign (b : BitVec 64) :
    (@unpackSign Format.binary64 b).toNat = b.toNat / signBit := by
  have := b.isLt
  simp [unpackSign, BitVec.extractLsb, BitVec.extractLsb', Nat.shiftRight_eq_div_pow]
  rw [signBit_eq]
  omega

theorem toNat_implicit_append (f : BitVec 52) : (1#1 ++ f).toNat = binade + f.toNat := by
  have hf : f.toNat < 2 ^ 52 := f.isLt
  rw [BitVec.toNat_append, ← Nat.shiftLeft_add_eq_or_of_lt hf]
  rfl

/-- The sign bit is read as the sign. -/
theorem ofBitVec_unpackSign (v : Float) :
    Sign.ofBitVec (@unpackSign Format.binary64 v.toModel.toBits.toBitVec) = sign v := by
  have hs := toNat_unpackSign v.toModel.toBits.toBitVec
  have hlt : v.toBits.toNat < 2 * signBit := v.toBits.toBitVec.isLt
  have hb : v.toModel.toBits.toBitVec.toNat = v.toBits.toNat := rfl
  rw [hb, signBit_eq] at hs
  rw [signBit_eq] at hlt
  unfold Sign.ofBitVec sign isNegative
  simp only [← BitVec.toNat_inj, hs, signBit_eq]
  by_cases hneg : 9223372036854775808 ≤ v.toBits.toNat
  · simp [hneg]
  · simp [hneg]

/-! ## Reading a magnitude -/

/-- How a sign and the bits of a magnitude are read: beyond infinity as NaN, and below as a
significand at a place, whose bits are `(e + 1074) · 2 ^ 52 + m`. -/
def Reads (s : Sign) (bits : Nat) : UnpackedFloat → Prop
  | .notANumber => infinityBits < bits
  | .infinity t => t = s ∧ bits = infinityBits
  | .zero t => t = s ∧ bits = 0
  | .finite t m e _ =>
    t = s ∧ m < 2 * binade ∧ -1074 ≤ e ∧ e ≤ 971 ∧ (e = -1074 ∨ binade ≤ m) ∧
      (bits : Int) = (e + 1074) * binade + m

/-- A double is read by its sign and the bits of its magnitude. -/
theorem reads_unpack (v : Float) : Reads (sign v) (magnitudeBits v) v.toModel.unpack := by
  have hm := toNat_unpackMantissa v.toModel.toBits.toBitVec
  have he := toNat_unpackExponent v.toModel.toBits.toBitVec
  have hb : v.toModel.toBits.toBitVec.toNat = v.toBits.toNat := rfl
  have hlt : v.toBits.toNat < 2 * signBit := v.toBits.toBitVec.isLt
  rw [hb, binade_eq] at hm he
  rw [signBit_eq] at hlt
  unfold Float.Model.unpack UnpackedFloat.unpack magnitudeBits
  simp only [ofBitVec_unpackSign, ← BitVec.toNat_inj, hm, he, signBit_eq]
  split
  next h₁ =>
    -- all bits of the exponent are set: an infinity or no number
    simp at h₁
    split
    next h₂ =>
      simp at h₂
      simp only [Reads, true_and, infinityBits_eq]
      omega
    next h₂ =>
      simp at h₂
      simp only [Reads, infinityBits_eq]
      omega
  next h₁ =>
    simp at h₁
    split
    next h₂ =>
      -- no bit of the exponent is set: a zero or a significand without its leading bit
      simp at h₂
      split
      next h₃ =>
        simp at h₃
        simp only [Reads, true_and]
        omega
      next h₃ =>
        simp [Reads, Format.exponentBias, binade_eq]
        omega
    next h₂ =>
      simp at h₂
      simp [Reads, Format.exponentBias, toNat_implicit_append, hm, binade_eq]
      omega

theorem isNaN_iff_unpack (v : Float) : v.isNaN = true ↔ v.toModel.unpack = .notANumber := by
  show v.toModel.unpack.isNaN = true ↔ _
  exact isNaN_iff

theorem unpack_ne_notANumber {v : Float} (h : v.isNaN = false) :
    v.toModel.unpack ≠ .notANumber := by
  rw [ne_eq, ← isNaN_iff_unpack, h]
  exact Bool.false_ne_true

/-- What is no NaN has at most the magnitude of infinity. -/
theorem Reads.le_infinityBits {s : Sign} {bits : Nat} {u : UnpackedFloat} (h : Reads s bits u)
    (hu : u ≠ .notANumber) : bits ≤ infinityBits := by
  cases u with
  | notANumber => exact absurd rfl hu
  | infinity t => exact h.2.le
  | zero t => exact h.2.le.trans (Nat.zero_le _)
  | finite t m e hm =>
    obtain ⟨-, hm, -, he, -, hb⟩ := h
    rw [binade_eq] at hm hb
    rw [infinityBits_eq]
    omega

/-- Only the infinities have the magnitude of infinity. -/
theorem Reads.lt_infinityBits {s : Sign} {bits : Nat} {u : UnpackedFloat} (h : Reads s bits u)
    (hu : u ≠ .notANumber) (hi : ∀ t, u ≠ .infinity t) : bits < infinityBits := by
  cases u with
  | notANumber => exact absurd rfl hu
  | infinity t => exact absurd rfl (hi t)
  | zero t =>
    rw [h.2]
    decide
  | finite t m e hm =>
    obtain ⟨-, hm, -, he, -, hb⟩ := h
    rw [binade_eq] at hm hb
    rw [infinityBits_eq]
    omega

/-- A significand is not zero, and neither are the bits of its magnitude. -/
theorem Reads.bits_pos {s t : Sign} {bits m : Nat} {e : Int} {hm : 0 < m}
    (h : Reads s bits (.finite t m e hm)) : 0 < bits := by
  obtain ⟨-, -, he, -, -, hb⟩ := h
  rw [binade_eq] at hb
  omega

/-! ## Comparing -/

theorem apply_le (s : Sign) (n : Nat) : s.apply n ≤ n := by
  cases s with
  | negative =>
    show -(n : Int) ≤ n
    omega
  | positive => exact le_refl _

theorem neg_le_apply (s : Sign) (n : Nat) : -(n : Int) ≤ s.apply n := by
  cases s with
  | negative => exact le_refl _
  | positive =>
    show -(n : Int) ≤ n
    omega

/-- Places before significands: the order of magnitudes is the order of their bits, since a
significand stays below the next binade. -/
theorem compares_then {e₁ e₂ : Int} {m₁ m₂ : Nat} (hm₁ : m₁ < 2 * binade) (hm₂ : m₂ < 2 * binade)
    (he₁ : -1074 ≤ e₁) (he₂ : -1074 ≤ e₂) (hl₁ : e₁ = -1074 ∨ binade ≤ m₁)
    (hl₂ : e₂ = -1074 ∨ binade ≤ m₂) :
    ((compare e₁ e₂).then (compare m₁ m₂)).Compares
      ((e₁ + 1074) * binade + m₁) ((e₂ + 1074) * binade + m₂) := by
  rw [binade_eq] at *
  rcases lt_trichotomy e₁ e₂ with h | rfl | h
  · rw [compare_lt_iff_lt.mpr h]
    show _ < _
    omega
  · rw [compare_eq_iff_eq.mpr rfl]
    show (compare m₁ m₂).Compares _ _
    rcases lt_trichotomy m₁ m₂ with h | h | h
    · rw [compare_lt_iff_lt.mpr h]
      show _ < _
      omega
    · rw [compare_eq_iff_eq.mpr h]
      show _ = _
      omega
    · rw [compare_gt_iff_gt.mpr h]
      show _ > _
      omega
  · rw [compare_gt_iff_gt.mpr h]
    show _ > _
    omega

theorem compares_neg {o : Ordering} {a b : Int} (h : o.Compares a b) :
    o.swap.Compares (-a) (-b) := by
  cases o with
  | lt => exact neg_lt_neg h
  | eq => exact congrArg (-·) h
  | gt => exact neg_lt_neg h

/-- Comparing numbers is comparing the bits of their magnitudes with their signs. -/
theorem compare_eq_some {s t : Sign} {a b : Nat} {u w : UnpackedFloat} (hu : Reads s a u)
    (hw : Reads t b w) (hnu : u ≠ .notANumber) (hnw : w ≠ .notANumber) :
    ∃ o, u.compare w = some o ∧ o.Compares (s.apply a) (t.apply b) := by
  have hu₁ := neg_le_apply s a
  have hu₂ := apply_le s a
  have hw₁ := neg_le_apply t b
  have hw₂ := apply_le t b
  fun_cases UnpackedFloat.compare u w with
  | case1 => exact absurd rfl hnu
  | case2 => exact absurd rfl hnw
  | case3 s t =>
    obtain ⟨rfl, rfl⟩ := hu
    obtain ⟨rfl, rfl⟩ := hw
    have hpos : -(infinityBits : Int) < infinityBits := by decide
    refine ⟨_, rfl, ?_⟩
    cases s <;> cases t
    · exact rfl
    · exact hpos
    · exact hpos
    · exact rfl
  -- an infinity on the left or on the right, and no infinity on the other side
  | case4 w hw₀ hwi =>
    obtain ⟨rfl, rfl⟩ := hu
    have hb := hw.lt_infinityBits hw₀ hwi
    exact ⟨_, rfl, lt_of_le_of_lt hw₂ (Int.ofNat_lt.mpr hb)⟩
  | case5 w hw₀ hwi =>
    obtain ⟨rfl, rfl⟩ := hu
    have hb := hw.lt_infinityBits hw₀ hwi
    exact ⟨_, rfl, lt_of_lt_of_le (neg_lt_neg (Int.ofNat_lt.mpr hb)) hw₁⟩
  | case6 u hu₀ hui =>
    obtain ⟨rfl, rfl⟩ := hw
    have ha := hu.lt_infinityBits hu₀ hui
    exact ⟨_, rfl, lt_of_le_of_lt hu₂ (Int.ofNat_lt.mpr ha)⟩
  | case7 u hu₀ hui =>
    obtain ⟨rfl, rfl⟩ := hw
    have ha := hu.lt_infinityBits hu₀ hui
    exact ⟨_, rfl, lt_of_lt_of_le (neg_lt_neg (Int.ofNat_lt.mpr ha)) hu₁⟩
  -- a zero on one side
  | case8 m e hm t =>
    have ha := hu.bits_pos
    obtain ⟨rfl, -⟩ := hu
    obtain ⟨rfl, rfl⟩ := hw
    exact ⟨_, rfl, lt_of_le_of_lt hw₂ (Int.ofNat_lt.mpr ha)⟩
  | case9 m e hm t =>
    have ha := hu.bits_pos
    obtain ⟨rfl, -⟩ := hu
    obtain ⟨rfl, rfl⟩ := hw
    exact ⟨_, rfl, lt_of_lt_of_le (neg_lt_neg (Int.ofNat_lt.mpr ha)) hw₁⟩
  | case10 t m e hm =>
    have hb := hw.bits_pos
    obtain ⟨rfl, -⟩ := hw
    obtain ⟨rfl, rfl⟩ := hu
    exact ⟨_, rfl, lt_of_le_of_lt hu₂ (Int.ofNat_lt.mpr hb)⟩
  | case11 t m e hm =>
    have hb := hw.bits_pos
    obtain ⟨rfl, -⟩ := hw
    obtain ⟨rfl, rfl⟩ := hu
    exact ⟨_, rfl, lt_of_lt_of_le (neg_lt_neg (Int.ofNat_lt.mpr hb)) hu₁⟩
  | case12 t t' =>
    obtain ⟨rfl, rfl⟩ := hu
    obtain ⟨rfl, rfl⟩ := hw
    exact ⟨_, rfl, le_antisymm (hu₂.trans hw₁) (hw₂.trans hu₁)⟩
  -- two significands, which decide where the signs agree
  | case13 m₁ e₁ hm₁ m₂ e₂ hm₂ =>
    obtain ⟨rfl, hm₁, he₁, -, hl₁, ha⟩ := hu
    obtain ⟨rfl, hm₂, he₂, -, hl₂, hb⟩ := hw
    refine ⟨_, rfl, ?_⟩
    have h := compares_then hm₁ hm₂ he₁ he₂ hl₁ hl₂
    rw [← ha, ← hb] at h
    exact compares_neg h
  | case14 m₁ e₁ hm₁ m₂ e₂ hm₂ =>
    have hb := hw.bits_pos
    obtain ⟨rfl, -⟩ := hu
    obtain ⟨rfl, -⟩ := hw
    refine ⟨_, rfl, ?_⟩
    show -(a : Int) < b
    omega
  | case15 m₁ e₁ hm₁ m₂ e₂ hm₂ =>
    have ha := hu.bits_pos
    obtain ⟨rfl, -⟩ := hu
    obtain ⟨rfl, -⟩ := hw
    refine ⟨_, rfl, ?_⟩
    show -(b : Int) < a
    omega
  | case16 m₁ e₁ hm₁ m₂ e₂ hm₂ =>
    obtain ⟨rfl, hm₁, he₁, -, hl₁, ha⟩ := hu
    obtain ⟨rfl, hm₂, he₂, -, hl₂, hb⟩ := hw
    refine ⟨_, rfl, ?_⟩
    have h := compares_then hm₁ hm₂ he₁ he₂ hl₁ hl₂
    rwa [← ha, ← hb] at h

/-- Two numbers compare as their ranks do. -/
theorem compare_unpack {a b : Float} (ha : a.isNaN = false) (hb : b.isNaN = false) :
    ∃ o, a.toModel.unpack.compare b.toModel.unpack = some o ∧ o.Compares (rank a) (rank b) :=
  compare_eq_some (reads_unpack a) (reads_unpack b) (unpack_ne_notANumber ha)
    (unpack_ne_notANumber hb)

theorem lt_iff_compare (a b : Float) :
    a < b ↔ a.toModel.unpack.compare b.toModel.unpack = some .lt := by
  show decide ((a.toModel.unpack.compare b.toModel.unpack == some .lt) = true) = true ↔ _
  rw [decide_eq_true_iff, beq_iff_eq]

theorem le_iff_compare (a b : Float) :
    a ≤ b ↔ (a.toModel.unpack.compare b.toModel.unpack).any (·.isLE) = true := by
  show decide ((a.toModel.unpack.compare b.toModel.unpack).any (·.isLE) = true) = true ↔ _
  rw [decide_eq_true_iff]

theorem beq_iff_compare (a b : Float) :
    (a == b) = true ↔ a.toModel.unpack.compare b.toModel.unpack = some .eq := by
  show (a.toModel.unpack.compare b.toModel.unpack == some .eq) = true ↔ _
  rw [beq_iff_eq]

theorem lt_iff_rank_lt {a b : Float} (ha : a.isNaN = false) (hb : b.isNaN = false) :
    a < b ↔ rank a < rank b := by
  obtain ⟨o, ho, hc⟩ := compare_unpack ha hb
  rw [lt_iff_compare, ho, Option.some_inj, hc.eq_lt]

theorem le_iff_rank_le {a b : Float} (ha : a.isNaN = false) (hb : b.isNaN = false) :
    a ≤ b ↔ rank a ≤ rank b := by
  obtain ⟨o, ho, hc⟩ := compare_unpack ha hb
  rw [le_iff_compare, ho, ← hc.ne_gt]
  cases o <;> simp

theorem beq_iff_rank_eq {a b : Float} (ha : a.isNaN = false) (hb : b.isNaN = false) :
    (a == b) = true ↔ rank a = rank b := by
  obtain ⟨o, ho, hc⟩ := compare_unpack ha hb
  rw [beq_iff_compare, ho, Option.some_inj, hc.eq_eq]

/-! ## NaN compares with nothing -/

/-- A NaN compares with nothing. -/
theorem compare_of_isNaN {a b : Float} (h : a.isNaN = true ∨ b.isNaN = true) :
    a.toModel.unpack.compare b.toModel.unpack = none := by
  rcases h with h | h
  · rw [(isNaN_iff_unpack a).mp h]
    rfl
  · rw [(isNaN_iff_unpack b).mp h]
    cases a.toModel.unpack <;> rfl

theorem not_lt_of_isNaN {a b : Float} (h : a.isNaN = true ∨ b.isNaN = true) : ¬ a < b := by
  rw [lt_iff_compare, compare_of_isNaN h]
  exact nofun

theorem not_le_of_isNaN {a b : Float} (h : a.isNaN = true ∨ b.isNaN = true) : ¬ a ≤ b := by
  rw [le_iff_compare, compare_of_isNaN h]
  exact nofun

theorem beq_of_isNaN {a b : Float} (h : a.isNaN = true ∨ b.isNaN = true) : (a == b) = false := by
  rw [← Bool.not_eq_true, beq_iff_compare, compare_of_isNaN h]
  exact nofun

/-- Comparing goes by rank between numbers, and fails when either side is none. -/
theorem isNaN_or (a b : Float) :
    (a.isNaN = false ∧ b.isNaN = false) ∨ (a.isNaN = true ∨ b.isNaN = true) := by
  cases a.isNaN <;> cases b.isNaN <;> simp

/-- What equals something is a number. -/
theorem isNaN_of_beq {a b : Float} (h : (a == b) = true) : a.isNaN = false ∧ b.isNaN = false := by
  rcases isNaN_or a b with hnumbers | hnan
  · exact hnumbers
  · rw [beq_of_isNaN hnan] at h
    cases h

theorem le_iff_lt_or_beq (a b : Float) : a ≤ b ↔ a < b ∨ (a == b) = true := by
  rcases isNaN_or a b with ⟨ha, hb⟩ | h
  · rw [le_iff_rank_le ha hb, lt_iff_rank_lt ha hb, beq_iff_rank_eq ha hb]
    omega
  · simp [not_le_of_isNaN h, not_lt_of_isNaN h, beq_of_isNaN h]

theorem not_lt_of_lt {a b : Float} (h : a < b) : ¬ b < a := by
  rcases isNaN_or a b with ⟨ha, hb⟩ | hnan
  · rw [lt_iff_rank_lt ha hb] at h
    rw [lt_iff_rank_lt hb ha]
    omega
  · exact absurd h (not_lt_of_isNaN hnan)

/-! ## The kinds of doubles by rank -/

theorem natAbs_rank (v : Float) : (rank v).natAbs = magnitudeBits v := by
  unfold rank
  cases sign v with
  | negative => exact Int.natAbs_neg _
  | positive => rfl

/-- The infinities are the numbers of greatest magnitude. -/
theorem isInf_iff_rank {v : Float} (h : v.isNaN = false) :
    v.isInf = true ↔ (rank v).natAbs = infinityBits := by
  have hr := reads_unpack v
  have hn := unpack_ne_notANumber h
  rw [natAbs_rank]
  show v.toModel.unpack.isInf = true ↔ _
  generalize v.toModel.unpack = u at hr hn
  cases u with
  | notANumber => exact absurd rfl hn
  | infinity t => exact iff_of_true rfl hr.2
  | zero t => exact iff_of_false nofun (hr.lt_infinityBits nofun nofun).ne
  | finite t m e hm => exact iff_of_false nofun (hr.lt_infinityBits nofun nofun).ne

theorem isFinite_iff (v : Float) : v.isFinite = true ↔ v.isNaN = false ∧ v.isInf = false := by
  show v.toModel.unpack.isFinite = true ↔
    v.toModel.unpack.isNaN = false ∧ v.toModel.unpack.isInf = false
  cases v.toModel.unpack <;>
    simp [UnpackedFloat.isFinite, UnpackedFloat.isNaN, UnpackedFloat.isInf]

theorem natAbs_rank_le {v : Float} (h : v.isNaN = false) : (rank v).natAbs ≤ infinityBits := by
  rw [natAbs_rank]
  exact (reads_unpack v).le_infinityBits (unpack_ne_notANumber h)

theorem neg_zero_eq : (-0 : Float) = -zero := by decide

/-- A number other than negative zero is known by its rank. -/
theorem eq_of_rank_eq {a b : Float} (ha : a.isNaN = false) (hb : b.isNaN = false)
    (hza : a ≠ -zero) (hzb : b ≠ -zero) (h : rank a = rank b) : a = b := by
  have hbeq := (beq_iff_rank_eq ha hb).mpr h
  obtain ⟨-, -, heq | ⟨-, hneg⟩ | ⟨hneg, -⟩⟩ := Float.beq_iff_ne_nan_and_eq.mp hbeq
  · exact heq
  · exact absurd (hneg.trans neg_zero_eq) hzb
  · exact absurd (hneg.trans neg_zero_eq) hza

/-! ## The constants -/

@[simp] theorem rank_infinity : rank infinity = infinityBits := by decide

@[simp] theorem rank_neg_infinity : rank (-infinity) = -infinityBits := by decide

@[simp] theorem isNaN_zero : zero.isNaN = false := by decide

@[simp] theorem isNaN_infinity : infinity.isNaN = false := by decide

@[simp] theorem isNaN_neg_infinity : (-infinity).isNaN = false := by decide

theorem zero_ne_neg_zero : zero ≠ -zero := by decide

end PiecewiseLinear.Double
