import PiecewiseLinear.Proofs.Double.Negation
import PiecewiseLinear.Proofs.Number.Rounding

/-!
# Rounding to the nearest double

The double that a ratio is rounded to is nearest to it, and what is nearest is settled: of two
doubles that are equally near, one has even bits and the other has not.

- `roundQuotient_error`, `abs_sub_le_of_error`: no integer is nearer to a ratio than the one it
  is rounded to, which is even if another is as near.
- `Double.IsNearest`: the double nearest to a real, ties to even.
- `Double.exists_multiple_near`: seen from a real, doubles on finer places are no better than the
  multiples of its own place.
- `Double.isNearest_ofRatio`, `Double.isNearest_ofInt`: rounding gives the nearest double.
- `Double.IsNearest.unique`: there is only one.
-/

namespace PiecewiseLinear

/-! ## The nearest integer -/

/-- What is left over by rounding a quotient, in units of the divisor. -/
theorem roundQuotient_remainder (num : Nat) {den : Nat} (hden : 0 < den) :
    2 * (roundQuotient num den * den - num : Int).natAbs ≤ den ∧
      (2 * (roundQuotient num den * den - num : Int).natAbs = den →
        roundQuotient num den % 2 = 0) := by
  have hdivision : (num : Int) = (num / den : Nat) * den + (num % den : Nat) := by
    exact_mod_cast (Nat.div_add_mod' num den).symm
  have hrest := Nat.mod_lt num hden
  unfold roundQuotient
  dsimp only
  split_ifs with h
  · have hleft : ((num / den : Nat) * den - num : Int).natAbs = num % den := by omega
    rw [hleft]
    constructor
    · omega
    · omega
  · have hleft : ((num / den + 1 : Nat) * den - num : Int).natAbs = den - num % den := by
      rw [Nat.cast_succ, add_one_mul]
      omega
    rw [hleft]
    constructor
    · omega
    · omega

/-- A rounded ratio is off by a half at most, and only if it is even by a half. -/
theorem roundQuotient_error (num : Nat) {den : Nat} (hden : 0 < den) :
    |(roundQuotient num den - num / den : ℝ)| ≤ 1 / 2 ∧
      (|(roundQuotient num den - num / den : ℝ)| = 1 / 2 → roundQuotient num den % 2 = 0) := by
  have hden' : (0 : ℝ) < den := Nat.cast_pos.mpr hden
  obtain ⟨hle, heven⟩ := roundQuotient_remainder num hden
  have herror : |(roundQuotient num den - num / den : ℝ)| =
      (roundQuotient num den * den - num : Int).natAbs / den := by
    rw [sub_div' hden'.ne', abs_div, abs_of_pos hden', Nat.cast_natAbs]
    push_cast
    rfl
  rw [herror, div_le_div_iff₀ hden' two_pos, div_eq_div_iff hden'.ne' two_ne_zero]
  constructor
  · rw [mul_comm, one_mul]
    exact_mod_cast hle
  · intro heq
    rw [mul_comm, one_mul] at heq
    exact heven (by exact_mod_cast heq)

/-- Nothing is nearer than what is off by a half at most, and something else is as near only if
it is off by a half. -/
theorem abs_sub_le_of_error {m : Nat} {x : ℝ} (h : |(m - x : ℝ)| ≤ 1 / 2) (j : Int) :
    |(m - x : ℝ)| ≤ |(j - x : ℝ)| ∧
      (j ≠ m → |(j - x : ℝ)| = |(m - x : ℝ)| → |(m - x : ℝ)| = 1 / 2) := by
  by_cases heq : j = m
  · subst heq
    exact ⟨le_of_eq (by norm_cast), fun hne => absurd rfl hne⟩
  · -- two different integers are one apart
    have hone : (1 : ℝ) ≤ |((j - m : Int) : ℝ)| := by
      exact_mod_cast Int.one_le_abs (sub_ne_zero.mpr heq)
    have htriangle : |((j - m : Int) : ℝ)| ≤ |(j - x : ℝ)| + |(m - x : ℝ)| := by
      push_cast
      calc |(j - m : ℝ)| = |(j - x) - (m - x : ℝ)| := by rw [sub_sub_sub_cancel_right]
        _ ≤ |(j - x : ℝ)| + |(m - x : ℝ)| := abs_sub _ _
    constructor
    · linarith
    · intro _ htie
      linarith

namespace Double

/-! ## Bits and values -/

/-- The bits of finite doubles are those below infinity. -/
theorem isFinite_iff_magnitudeBits {v : Float} :
    v.isFinite = true ↔ magnitudeBits v < infinityBits := by
  refine ⟨magnitudeBits_lt, fun h => ?_⟩
  have hnan : v.isNaN = false := by
    rw [← Bool.not_eq_true, isNaN_iff_magnitudeBits]
    exact h.not_gt
  rw [isFinite_iff]
  refine ⟨hnan, ?_⟩
  rw [← Bool.not_eq_true, isInf_iff_rank hnan, natAbs_rank]
  exact h.ne

/-- A double is known by its sign and its magnitude. -/
theorem eq_of_sign_of_magnitudeBits {a b : Float} (hsign : isNegative a = isNegative b)
    (h : magnitudeBits a = magnitudeBits b) : a = b := by
  have ha := a.toBits.toNat_lt
  have hb := b.toBits.toNat_lt
  rw [isNegative, isNegative, decide_eq_decide] at hsign
  rw [magnitudeBits, magnitudeBits] at h
  rw [← Float.toBits_inj, ← UInt64.toNat_inj]
  rw [signBit_eq] at *
  omega

theorem isNegative_neg {v : Float} (h : v.isNaN = false) : isNegative (-v) = !isNegative v := by
  have hsign := sign_neg h
  unfold sign at hsign
  cases hv : isNegative v <;> cases hneg : isNegative (-v) <;> rw [hv, hneg] at hsign
  · cases hsign
  · rfl
  · rfl
  · cases hsign

theorem neg_neg_eq {v : Float} (h : v.isNaN = false) : -(-v) = v := by
  have hneg : (-v).isNaN = false := (isNaN_neg v).trans h
  refine eq_of_sign_of_magnitudeBits ?_ ?_
  · rw [isNegative_neg hneg, isNegative_neg h, Bool.not_not]
  · rw [magnitudeBits_neg hneg, magnitudeBits_neg h]

theorem isFinite_neg {v : Float} (h : v.isFinite = true) : (-v).isFinite = true := by
  rw [isFinite_iff_magnitudeBits, magnitudeBits_neg (isNaN_of_isFinite h)]
  exact magnitudeBits_lt h

theorem toReal_neg {v : Float} (h : v.isNaN = false) : toReal (-v) = -toReal v := by
  rw [toReal_eq_rankValue, toReal_eq_rankValue, rank_neg h, rankValue_neg]

/-- Below infinity there is a double of either sign for all bits. -/
theorem exists_of_magnitudeBits {bits : Nat} (h : bits < infinityBits) (negative : Bool) :
    ∃ v : Float, v.isFinite = true ∧ isNegative v = negative ∧ magnitudeBits v = bits := by
  have hsign := isNegative_ofNat h.le
  have hbits : magnitudeBits (Float.ofBits (UInt64.ofNat bits)) = bits := by
    rw [← toNat_toBits_of_not_isNegative hsign, toNat_toBits_ofNat h.le]
  have hfinite := isFinite_iff_magnitudeBits.mpr (hbits.trans_lt h)
  have hnan := isNaN_of_isFinite hfinite
  cases negative with
  | false => exact ⟨_, hfinite, hsign, hbits⟩
  | true =>
    refine ⟨-Float.ofBits (UInt64.ofNat bits), isFinite_neg hfinite, ?_, ?_⟩
    · rw [isNegative_neg hnan, hsign]
      rfl
    · rw [magnitudeBits_neg hnan, hbits]

/-! ## Doubles and multiples of places -/

/-- The value of the bits that a significand makes with a place, also where it is too long by the
one that opens the next binade. -/
theorem magnitude_of_significand {m : Nat} {q : Int} (hle : m ≤ 2 ^ 53) (hq : -1074 ≤ q)
    (hfull : q = -1074 ∨ 2 ^ 52 ≤ m) :
    magnitude ((q + 1074).toNat * binade + m) = m * 2 ^ q := by
  rw [binade_eq]
  by_cases hsmall : m < 2 ^ 52
  · obtain rfl := hfull.resolve_right (by omega)
    rw [show (-1074 + 1074 : Int).toNat * 4503599627370496 + m = m by omega,
      magnitude_of_lt (by rw [binade_eq]; omega)]
  · rw [magnitude_of_le (by rw [binade_eq]; omega), binade_eq]
    by_cases hcarry : m = 2 ^ 53
    · have hrest : ((q + 1074).toNat * 4503599627370496 + m) % 4503599627370496 = 0 := by omega
      have hplace : (((q + 1074).toNat * 4503599627370496 + m) / 4503599627370496 : Nat) - 1075 =
          q + 1 := by omega
      rw [hrest, hplace, hcarry, zpow_add_one₀ two_ne_zero]
      push_cast
      ring
    · have hrest : ((q + 1074).toNat * 4503599627370496 + m) % 4503599627370496 +
          4503599627370496 = m := by omega
      have hplace : (((q + 1074).toNat * 4503599627370496 + m) / 4503599627370496 : Nat) - 1075 =
          q := by omega
      rw [hrest, hplace]

/-- Seen from a real whose own place is `2 ^ q`, no double is nearer than some multiple of that
place, and only if it is this multiple is it as near. -/
theorem exists_multiple_near {r : ℝ} {q : Int} (hq : q = -1074 ∨ (2 : ℝ) ^ (52 + q) ≤ r)
    (w : Float) :
    ∃ j : Int, |j * 2 ^ q - r| ≤ |toReal w - r| ∧
      (|j * 2 ^ q - r| = |toReal w - r| → toReal w = j * 2 ^ q) := by
  obtain ⟨hlt, hge, -, -⟩ := isParts_parts w
  rcases le_or_gt q (parts w).2 with hle | hfiner
  · -- a double on a coarser place is a multiple itself
    obtain ⟨n, hn⟩ := Int.eq_ofNat_of_zero_le (sub_nonneg.mpr hle)
    have hplace : (2 : ℝ) ^ (parts w).2 = 2 ^ n * 2 ^ q := by
      rw [show (parts w).2 = n + q by omega, zpow_add₀ two_ne_zero, zpow_natCast]
    have hmultiple : ∃ j : Int, toReal w = j * 2 ^ q := by
      unfold toReal
      dsimp only
      split_ifs
      · refine ⟨-((parts w).1 * 2 ^ n : Nat), ?_⟩
        push_cast
        rw [hplace]
        ring
      · refine ⟨((parts w).1 * 2 ^ n : Nat), ?_⟩
        push_cast
        rw [hplace]
        ring
    obtain ⟨j, hj⟩ := hmultiple
    exact ⟨j, by rw [hj], fun _ => hj⟩
  · -- a double on a finer place is below the binade of the real, which begins with a multiple
    have hbinade := hq.resolve_left (by omega)
    have hbelow : toReal w < 2 ^ (52 + q) := by
      have hmagnitude : ((parts w).1 * 2 ^ (parts w).2 : ℝ) < 2 ^ (52 + q) := by
        calc ((parts w).1 * 2 ^ (parts w).2 : ℝ) < 2 ^ (53 : Int) * 2 ^ (parts w).2 := by
              gcongr
              exact_mod_cast hlt
          _ = 2 ^ (53 + (parts w).2) := (zpow_add₀ two_ne_zero _ _).symm
          _ ≤ 2 ^ (52 + q) := zpow_le_zpow_right₀ one_le_two (by omega)
      unfold toReal
      dsimp only
      split_ifs
      · have hnonneg : (0 : ℝ) ≤ (parts w).1 * 2 ^ (parts w).2 := by positivity
        have hpos : (0 : ℝ) < 2 ^ (52 + q) := zpow_pos two_pos _
        linarith
      · exact hmagnitude
    have hfirst : ((2 ^ 52 : Int) * 2 ^ q : ℝ) = 2 ^ (52 + q) := by
      rw [zpow_add₀ two_ne_zero]
      norm_num
    have hnearer : |((2 ^ 52 : Int) * 2 ^ q - r : ℝ)| < |toReal w - r| := by
      rw [hfirst, abs_sub_comm, abs_of_nonneg (sub_nonneg.mpr hbinade), abs_sub_comm,
        abs_of_nonneg (by linarith)]
      linarith
    refine ⟨2 ^ 52, ?_, ?_⟩
    · exact_mod_cast hnearer.le
    · intro heq
      exact absurd (by exact_mod_cast heq) hnearer.ne

/-! ## The nearest double -/

theorem isNegative_ofSignificand (m : Nat) (q : Int) : isNegative (ofSignificand m q) = false :=
  isNegative_ofNat (min_le_left _ _)

theorem magnitudeBits_ofSignificand (m : Nat) (q : Int) :
    magnitudeBits (ofSignificand m q) = min infinityBits ((q + 1074).toNat * binade + m) := by
  rw [← toNat_toBits_of_not_isNegative (isNegative_ofSignificand m q)]
  exact toNat_toBits_ofNat (min_le_left _ _)

/-- A double is the nearest one to a real: none is nearer, and if others are as near, its bits
are even. Its sign is that of the real, and zero has none. -/
structure IsNearest (r : ℝ) (v : Float) : Prop where
  isFinite : v.isFinite = true
  isNegative_eq : isNegative v = decide (r < 0)
  le : ∀ w : Float, w.isFinite = true → |toReal v - r| ≤ |toReal w - r|
  even : ∀ w : Float, w.isFinite = true → toReal w ≠ toReal v →
    |toReal w - r| = |toReal v - r| → magnitudeBits v % 2 = 0

/-- The significand of a ratio at its place: a full one, off by a half at most. -/
structure IsRounded (r : ℝ) (q : Int) (m : Nat) : Prop where
  le : m ≤ 2 ^ 53
  place_ge : -1074 ≤ q
  coarse : q = -1074 ∨ (2 : ℝ) ^ (52 + q) ≤ r
  full : q = -1074 ∨ 2 ^ 52 ≤ m
  error_le : |(m - r / 2 ^ q : ℝ)| ≤ 1 / 2
  even : |(m - r / 2 ^ q : ℝ)| = 1 / 2 → m % 2 = 0

/-- The significand of a ratio is a rounded one at the place chosen for it: the place leaves 53 bits
of the quotient, or is the last one that there is. -/
theorem isRounded_significand {num den : Nat} (hnum : num ≠ 0) (hden : den ≠ 0) :
    IsRounded (num / den) (BinaryFormat.double.place num den)
      (BinaryFormat.significand (BinaryFormat.double.place num den) num den) := by
  have hpos : (0 : ℝ) < num / den := by positivity
  have hplace := BinaryFormat.place_eq .double hnum hden
  generalize BinaryFormat.double.place num den = q at *
  have hq : q = max (Int.log 2 (num / den : ℝ) + 1 - 53) (-1074) := hplace
  have hunit : (0 : ℝ) < 2 ^ q := zpow_pos two_pos q
  -- the shifted numerator and denominator have the ratio in units of the place
  have hscaled : ((num <<< (-q).toNat : Nat) / (den <<< q.toNat : Nat) : ℝ) =
      num / den / 2 ^ q := by
    rw [zpow_eq_div, Nat.shiftLeft_eq, Nat.shiftLeft_eq]
    push_cast
    field_simp
  have hden' : 0 < den <<< q.toNat := by
    rw [Nat.shiftLeft_eq]
    positivity
  obtain ⟨herror, heven⟩ := roundQuotient_error (num <<< (-q).toNat) hden'
  rw [hscaled] at herror heven
  have hlt : (num / den / 2 ^ q : ℝ) < 2 ^ 53 := by
    rw [div_lt_iff₀ hunit]
    calc (num / den : ℝ) < 2 ^ (Int.log 2 (num / den : ℝ) + 1) := by
          exact_mod_cast Int.lt_zpow_succ_log_self one_lt_two (num / den : ℝ)
      _ ≤ 2 ^ (53 + q) := zpow_le_zpow_right₀ one_le_two (by omega)
      _ = 2 ^ 53 * 2 ^ q := zpow_add₀ two_ne_zero _ _
  have hcoarse : q = -1074 ∨ (2 : ℝ) ^ (52 + q) ≤ num / den := by
    by_cases hlast : q = -1074
    · exact .inl hlast
    · refine .inr ?_
      calc (2 : ℝ) ^ (52 + q) ≤ 2 ^ Int.log 2 (num / den : ℝ) :=
            zpow_le_zpow_right₀ one_le_two (by omega)
        _ ≤ num / den := by exact_mod_cast Int.zpow_log_le_self one_lt_two hpos
  have hbounds := abs_le.mp herror
  unfold BinaryFormat.significand
  generalize roundQuotient (num <<< (-q).toNat) (den <<< q.toNat) = m at *
  refine ⟨?_, ?_, hcoarse, hcoarse.imp_right fun hle => ?_, herror, heven⟩
  · have hsucc : (m : ℝ) < (2 ^ 53 + 1 : Nat) := by
      push_cast
      linarith [hbounds.2]
    exact Nat.le_of_lt_succ (Nat.cast_lt.mp hsucc)
  · omega
  · have hfull : (2 : ℝ) ^ 52 ≤ num / den / 2 ^ q := by
      rw [le_div_iff₀ hunit]
      calc (2 : ℝ) ^ 52 * 2 ^ q = 2 ^ (52 + q) := (zpow_add₀ two_ne_zero _ _).symm
        _ ≤ num / den := hle
    have hsucc : ((2 ^ 52 : Nat) : ℝ) < (m + 1 : Nat) := by
      push_cast
      linarith [hbounds.1]
    exact Nat.le_of_lt_succ (Nat.cast_lt.mp hsucc)

/-- A finite double made of a rounded significand is the nearest one. -/
theorem IsRounded.isNearest {r : ℝ} {q : Int} {m : Nat} (h : IsRounded r q m) (hr : 0 ≤ r)
    (hfinite : (ofSignificand m q).isFinite = true) : IsNearest r (ofSignificand m q) := by
  have hsign := isNegative_ofSignificand m q
  have hbits : magnitudeBits (ofSignificand m q) = (q + 1074).toNat * binade + m := by
    have hlt := magnitudeBits_lt hfinite
    rw [magnitudeBits_ofSignificand] at hlt ⊢
    omega
  have hvalue : toReal (ofSignificand m q) = m * 2 ^ q := by
    rw [toReal_eq, hsign, if_neg Bool.false_ne_true, hbits,
      magnitude_of_significand h.le h.place_ge h.full]
  -- in units of the place the question is which integer is nearest
  have hunit : (0 : ℝ) < 2 ^ q := zpow_pos two_pos q
  have hscale (a : ℝ) : |a * 2 ^ q - r| = |a - r / 2 ^ q| * 2 ^ q := by
    rw [← abs_of_pos hunit, ← abs_mul, abs_of_pos hunit, sub_mul, div_mul_cancel₀ _ hunit.ne']
  have hbest (j : Int) : |m * 2 ^ q - r| ≤ |j * 2 ^ q - r| := by
    rw [hscale, hscale]
    exact mul_le_mul_of_nonneg_right (abs_sub_le_of_error h.error_le j).1 hunit.le
  refine ⟨hfinite, ?_, fun w _ => ?_, fun w _ hne htie => ?_⟩
  · rw [hsign, decide_eq_false hr.not_gt]
  · obtain ⟨j, hj, -⟩ := exists_multiple_near h.coarse w
    rw [hvalue]
    exact (hbest j).trans hj
  · obtain ⟨j, hj, heq⟩ := exists_multiple_near h.coarse w
    rw [hvalue] at hne htie
    have hsame : |j * 2 ^ q - r| = |toReal w - r| := le_antisymm hj (htie.trans_le (hbest j))
    have hw := heq hsame
    have hj' : j ≠ m := by
      rintro rfl
      exact hne (by exact_mod_cast hw)
    rw [htie, hscale, hscale] at hsame
    have hhalf := (abs_sub_le_of_error h.error_le j).2 hj' (mul_right_cancel₀ hunit.ne' hsame)
    have heven := h.even hhalf
    rw [hbits, binade_eq]
    omega

/-- **Rounding a ratio** that is not too large gives the nearest double. -/
theorem isNearest_ofRatio {num den : Nat} (hden : den ≠ 0)
    (h : (num / den : ℝ) < 2 ^ (1023 : Int)) : IsNearest (num / den) (ofRatio num den) := by
  by_cases hnum : num = 0
  · subst hnum
    have hzero : toReal zero = 0 := by
      rw [toReal_eq, if_neg (by decide), show magnitudeBits zero = 0 by decide, magnitude_zero]
    rw [ofRatio, if_pos rfl, Nat.cast_zero, zero_div]
    refine ⟨by decide, ?_, fun w _ => ?_, fun w _ _ _ => by decide⟩
    · rw [decide_eq_false (lt_irrefl _)]
      decide
    · rw [hzero, sub_zero, abs_zero]
      exact abs_nonneg _
  · have hrounded := isRounded_significand hnum hden
    rw [ofRatio, if_neg hnum]
    refine hrounded.isNearest (by positivity) ?_
    generalize BinaryFormat.double.place num den = q at hrounded ⊢
    generalize BinaryFormat.significand q num den = m at hrounded ⊢
    have hplace : q ≤ 970 := by
      rcases hrounded.coarse with rfl | hle
      · omega
      · have hexponent := (zpow_lt_zpow_iff_right₀ one_lt_two).mp (hle.trans_lt h)
        omega
    have hle := hrounded.le
    rw [isFinite_iff_magnitudeBits, magnitudeBits_ofSignificand, infinityBits_eq, binade_eq]
    omega

/-- The nearest double to the negative of a real other than zero is the negative one. -/
theorem IsNearest.neg {r : ℝ} {v : Float} (h : IsNearest r v) (hr : r ≠ 0) :
    IsNearest (-r) (-v) := by
  have hnan := isNaN_of_isFinite h.isFinite
  have hflip {w : Float} (hw : w.isFinite = true) : |toReal (-w) - r| = |toReal w - -r| := by
    rw [toReal_neg (isNaN_of_isFinite hw), ← abs_neg]
    congr 1
    ring
  have hself : |toReal (-v) - -r| = |toReal v - r| := by
    rw [toReal_neg hnan, ← abs_neg]
    congr 1
    ring
  refine ⟨isFinite_neg h.isFinite, ?_, fun w hw => ?_, fun w hw hne htie => ?_⟩
  · rw [isNegative_neg hnan, h.isNegative_eq, ← decide_not, decide_eq_decide, not_lt,
      neg_neg_iff_pos]
    exact ⟨fun hle => lt_of_le_of_ne hle hr.symm, le_of_lt⟩
  · rw [hself, ← hflip hw]
    exact h.le (-w) (isFinite_neg hw)
  · rw [hself, ← hflip hw] at htie
    rw [magnitudeBits_neg hnan]
    refine h.even (-w) (isFinite_neg hw) (fun heq => hne ?_) htie
    rw [toReal_neg (isNaN_of_isFinite hw)] at heq
    rw [toReal_neg hnan, ← heq, neg_neg]

/-- **Rounding an integer** that is not too large gives the nearest double. -/
theorem isNearest_ofInt {n : Int} (h : |(n : ℝ)| < 2 ^ (1023 : Int)) : IsNearest n (ofInt n) := by
  have hlt : ((n.natAbs : Nat) / (1 : Nat) : ℝ) < 2 ^ (1023 : Int) := by
    rw [Nat.cast_one, div_one, Nat.cast_natAbs, Int.cast_abs]
    exact h
  have hnearest := isNearest_ofRatio one_ne_zero hlt
  rw [Nat.cast_one, div_one] at hnearest
  unfold ofInt
  split_ifs with hneg
  · have hcast : (n : ℝ) = -(n.natAbs : Nat) := by
      rw [Nat.cast_natAbs, abs_of_neg hneg]
      push_cast
      ring
    rw [hcast]
    exact hnearest.neg (Nat.cast_ne_zero.mpr (by omega))
  · have hcast : (n : ℝ) = (n.natAbs : Nat) := by
      rw [Nat.cast_natAbs, abs_of_nonneg (not_lt.mp hneg)]
    rw [hcast]
    exact hnearest

/-! ## There is only one -/

/-- What lies between two points that are as far from a third is nearer to it. -/
theorem abs_sub_lt_of_between {a b c r : ℝ} (hab : |a - r| = |b - r|) (hac : a < c) (hcb : c < b) :
    |c - r| < |a - r| := by
  rcases abs_eq_abs.mp hab with heq | heq
  · linarith
  · have hleft : |a - r| = r - a := by
      rw [abs_sub_comm, abs_of_nonneg (by linarith)]
    rw [hleft, abs_lt]
    constructor
    · linarith
    · linarith

/-- Between the magnitudes of two different nearest doubles there is another one, which is
nearer: their bits are even, so they are not next to one another. -/
theorem IsNearest.not_magnitudeBits_lt {r : ℝ} {v w : Float} (hv : IsNearest r v)
    (hw : IsNearest r w) : ¬ magnitudeBits v < magnitudeBits w := by
  intro hlt
  have hsign := hv.isNegative_eq.trans hw.isNegative_eq.symm
  have htie := le_antisymm (hv.le w hw.isFinite) (hw.le v hv.isFinite)
  have hne : toReal v ≠ toReal w := by
    rw [toReal_eq, toReal_eq, hsign]
    have hmagnitude := (magnitude_strictMono hlt).ne
    split_ifs
    · exact fun h => hmagnitude (neg_injective h)
    · exact hmagnitude
  have hveven := hv.even w hw.isFinite hne.symm htie.symm
  have hweven := hw.even v hv.isFinite hne htie
  have hfinite := magnitudeBits_lt hw.isFinite
  obtain ⟨u, hu, husign, hubits⟩ := exists_of_magnitudeBits
    (show magnitudeBits v + 1 < infinityBits by omega) (isNegative v)
  have hvu : magnitude (magnitudeBits v) < magnitude (magnitudeBits u) :=
    magnitude_strictMono (by omega)
  have huw : magnitude (magnitudeBits u) < magnitude (magnitudeBits w) :=
    magnitude_strictMono (by omega)
  refine (hv.le u hu).not_gt ?_
  rw [toReal_eq v, toReal_eq w, ← hsign] at htie
  rw [toReal_eq, toReal_eq, husign]
  split_ifs at htie ⊢
  · rw [htie]
    exact abs_sub_lt_of_between htie.symm (neg_lt_neg huw) (neg_lt_neg hvu)
  · exact abs_sub_lt_of_between htie hvu huw

/-- **The nearest double is unique.** -/
theorem IsNearest.unique {r : ℝ} {v w : Float} (hv : IsNearest r v) (hw : IsNearest r w) :
    v = w := by
  refine eq_of_sign_of_magnitudeBits (hv.isNegative_eq.trans hw.isNegative_eq.symm) ?_
  have hvw := hv.not_magnitudeBits_lt hw
  have hwv := hw.not_magnitudeBits_lt hv
  omega

end Double

end PiecewiseLinear
