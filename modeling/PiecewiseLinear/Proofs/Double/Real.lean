import PiecewiseLinear.Proofs.Double.Order

/-!
# Doubles as reals

Every double but NaN stands for a point of the extended real line, and numbers are
compared as the points that they stand for.

- `Double.toReal`: the real that a finite double stands for, `m · 2 ^ q` with its sign.
- `Double.toEReal`: the same with the infinities at the ends of the line.
- `Double.toEReal_lt_iff`, `Double.toEReal_eq_iff`: comparisons on the line.
- `Double.eq_of_toEReal_eq`: doubles for the same point are equal, negative zero apart.

The proofs go through `Double.rank`: the value of a magnitude grows with its bits.
-/

namespace PiecewiseLinear.Double

/-- The real that a finite double stands for. -/
noncomputable def toReal (v : Float) : ℝ :=
  let (m, q) := parts v
  if isNegative v then -(m * 2 ^ q) else m * 2 ^ q

/-- The point of the extended real line that a double stands for. NaN stands for none, and
no statement here is about its image. -/
noncomputable def toEReal (v : Float) : EReal :=
  if v.isInf then (if isNegative v then ⊥ else ⊤) else (toReal v : EReal)

/-! ## The value of a magnitude -/

/-- The value of a magnitude by its bits. -/
noncomputable def magnitude (bits : Nat) : ℝ :=
  if bits < binade then bits * 2 ^ (-1074 : Int)
  else (bits % binade + binade : Nat) * 2 ^ ((bits / binade : Nat) - 1075 : Int)

theorem magnitude_of_lt {bits : Nat} (h : bits < binade) :
    magnitude bits = bits * 2 ^ (-1074 : Int) := if_pos h

theorem magnitude_of_le {bits : Nat} (h : binade ≤ bits) :
    magnitude bits = (bits % binade + binade : Nat) * 2 ^ ((bits / binade : Nat) - 1075 : Int) :=
  if_neg (Nat.not_lt.mpr h)

/-- A double stands for its magnitude, with its sign. -/
theorem toReal_eq (v : Float) :
    toReal v =
      if isNegative v then -magnitude (magnitudeBits v) else magnitude (magnitudeBits v) := by
  unfold toReal parts magnitude
  by_cases h : magnitudeBits v < binade
  · simp only [if_pos h]
  · simp only [if_neg h]

/-- The next pattern of bits has a greater value, also where it opens the next binade. -/
theorem magnitude_lt_succ (bits : Nat) : magnitude bits < magnitude (bits + 1) := by
  have unit_pos (q : Int) : (0 : ℝ) < 2 ^ q := zpow_pos two_pos q
  rcases Nat.lt_or_ge bits binade with h | h
  · have hvalue : magnitude (bits + 1) = (bits + 1 : Nat) * 2 ^ (-1074 : Int) := by
      rcases Nat.lt_or_eq_of_le (show bits + 1 ≤ binade from h) with h' | h'
      · exact magnitude_of_lt h'
      · rw [magnitude_of_le h'.ge, h', Nat.mod_self, Nat.div_self (by decide), Nat.zero_add]
        norm_num
    rw [hvalue, magnitude_of_lt h]
    exact mul_lt_mul_of_pos_right (Nat.cast_lt.mpr (Nat.lt_succ_self bits)) (unit_pos _)
  · rw [magnitude_of_le h, magnitude_of_le (h.trans (Nat.le_succ bits))]
    rw [binade_eq]
    by_cases hlast : bits % 4503599627370496 + 1 = 4503599627370496
    · -- the significand is full: the next one is half of it plus one, a place higher
      have hm : (bits + 1) % 4503599627370496 = 0 := by omega
      have hq : (bits + 1) / 4503599627370496 = bits / 4503599627370496 + 1 := by omega
      have hplace : ((bits / 4503599627370496 + 1 : Nat) : Int) - 1075 =
          (bits / 4503599627370496 : Nat) - 1075 + 1 := by omega
      rw [hm, hq, hplace, zpow_add_one₀ two_ne_zero, mul_comm (2 ^ _) (2 : ℝ), ← mul_assoc]
      refine mul_lt_mul_of_pos_right ?_ (unit_pos _)
      norm_cast
      omega
    · have hm : (bits + 1) % 4503599627370496 = bits % 4503599627370496 + 1 := by omega
      have hq : (bits + 1) / 4503599627370496 = bits / 4503599627370496 := by omega
      rw [hm, hq]
      refine mul_lt_mul_of_pos_right ?_ (unit_pos _)
      norm_cast
      omega

theorem magnitude_strictMono : StrictMono magnitude := strictMono_nat_of_lt_succ magnitude_lt_succ

theorem magnitude_zero : magnitude 0 = 0 := by
  rw [magnitude_of_lt (by decide), Nat.cast_zero, zero_mul]

/-! ## The value of a rank -/

/-- The value of a magnitude with a sign. -/
noncomputable def rankValue (r : Int) : ℝ :=
  if r < 0 then -magnitude r.natAbs else magnitude r.natAbs

/-- A double stands for the value of its rank; that of both zeros is zero. -/
theorem toReal_eq_rankValue (v : Float) : toReal v = rankValue (rank v) := by
  rw [toReal_eq]
  unfold rank sign rankValue
  cases isNegative v with
  | false =>
    rw [if_neg Bool.false_ne_true, if_neg Bool.false_ne_true]
    exact (if_neg (Int.not_lt.mpr (Int.natCast_nonneg _))).symm
  | true =>
    rw [if_pos rfl, if_pos rfl]
    show _ = if -(magnitudeBits v : Int) < 0 then -magnitude (-(magnitudeBits v : Int)).natAbs
      else magnitude (-(magnitudeBits v : Int)).natAbs
    rw [Int.natAbs_neg, Int.natAbs_natCast]
    split
    next => rfl
    next h =>
      have h₀ : magnitudeBits v = 0 := by omega
      rw [h₀, magnitude_zero, neg_zero]

/-- The values of ranks increase, across zero as well as on either side of it. -/
theorem rankValue_lt {r t : Int} (h : r < t) : rankValue r < rankValue t := by
  have hpos {n : Nat} (hn : 0 < n) : 0 < magnitude n := magnitude_zero ▸ magnitude_strictMono hn
  have hnonneg (n : Nat) : 0 ≤ magnitude n :=
    magnitude_zero ▸ magnitude_strictMono.monotone (Nat.zero_le n)
  unfold rankValue
  split
  next hr =>
    split
    next ht => exact neg_lt_neg (magnitude_strictMono (by omega))
    next ht => exact lt_of_lt_of_le (neg_neg_of_pos (hpos (by omega))) (hnonneg _)
  next hr =>
    rw [if_neg (by omega)]
    exact magnitude_strictMono (by omega)

/-- The point of the extended line at a rank. -/
noncomputable def rankPoint (r : Int) : EReal :=
  if infinityBits ≤ r then ⊤ else if r ≤ -infinityBits then ⊥ else rankValue r

/-- A double that is no NaN lies at the point of its rank. -/
theorem toEReal_eq_rankPoint {v : Float} (h : v.isNaN = false) :
    toEReal v = rankPoint (rank v) := by
  have hle := natAbs_rank_le h
  unfold toEReal rankPoint
  by_cases hi : v.isInf
  · have hr : magnitudeBits v = infinityBits := natAbs_rank v ▸ (isInf_iff_rank h).mp hi
    unfold rank sign
    rw [if_pos hi, hr]
    cases isNegative v with
    | false => exact (if_pos (le_refl _)).symm
    | true =>
      show ⊥ = if (infinityBits : Int) ≤ -infinityBits then ⊤ else _
      rw [if_neg (by decide)]
      exact (if_pos (le_refl _)).symm
  · have hr := mt (isInf_iff_rank h).mpr hi
    rw [if_neg hi, if_neg (by omega), if_neg (by omega), toReal_eq_rankValue]

/-- Points lie in the order of their ranks. -/
theorem rankPoint_lt {r t : Int} (hr : -(infinityBits : Int) ≤ r) (ht : t ≤ infinityBits)
    (h : r < t) : rankPoint r < rankPoint t := by
  unfold rankPoint
  rw [if_neg (show ¬(infinityBits : Int) ≤ r by omega),
    if_neg (show ¬t ≤ -(infinityBits : Int) by omega)]
  split
  next =>
    split
    next => exact bot_lt_top
    next => exact EReal.bot_lt_coe _
  next =>
    split
    next => exact EReal.coe_lt_top _
    next => exact EReal.coe_lt_coe_iff.mpr (rankValue_lt h)

/-! ## Comparisons on the extended line -/

/-- On the ranks of doubles, the order of the points is that of the ranks. -/
theorem rankPoint_rank_lt_iff {a b : Float} (ha : a.isNaN = false) (hb : b.isNaN = false) :
    rankPoint (rank a) < rankPoint (rank b) ↔ rank a < rank b := by
  have hle := natAbs_rank_le ha
  have hle' := natAbs_rank_le hb
  constructor
  · intro h
    by_contra hlt
    rcases eq_or_lt_of_le (not_lt.mp hlt) with heq | hgt
    · rw [heq] at h
      exact lt_irrefl _ h
    · exact lt_asymm h (rankPoint_lt (by omega) (by omega) hgt)
  · exact rankPoint_lt (by omega) (by omega)

theorem toEReal_lt_iff {a b : Float} (ha : a.isNaN = false) (hb : b.isNaN = false) :
    toEReal a < toEReal b ↔ a < b := by
  rw [toEReal_eq_rankPoint ha, toEReal_eq_rankPoint hb, rankPoint_rank_lt_iff ha hb,
    lt_iff_rank_lt ha hb]

/-- Doubles lie at the same point if and only if they have the same rank, as both zeros do. -/
theorem toEReal_eq_iff_rank {a b : Float} (ha : a.isNaN = false) (hb : b.isNaN = false) :
    toEReal a = toEReal b ↔ rank a = rank b := by
  rw [toEReal_eq_rankPoint ha, toEReal_eq_rankPoint hb]
  constructor
  · intro h
    have hab := mt (rankPoint_rank_lt_iff ha hb).mpr h.not_lt
    have hba := mt (rankPoint_rank_lt_iff hb ha).mpr h.not_gt
    omega
  · exact congrArg rankPoint

theorem toEReal_eq_iff {a b : Float} (ha : a.isNaN = false) (hb : b.isNaN = false) :
    toEReal a = toEReal b ↔ (a == b) = true := by
  rw [toEReal_eq_iff_rank ha hb, beq_iff_rank_eq ha hb]

/-- Doubles for the same point are equal, negative zero apart. -/
theorem eq_of_toEReal_eq {a b : Float} (ha : a.isNaN = false) (hb : b.isNaN = false)
    (hza : a ≠ -zero) (hzb : b ≠ -zero) (h : toEReal a = toEReal b) : a = b :=
  eq_of_rank_eq ha hb hza hzb ((toEReal_eq_iff_rank ha hb).mp h)

/-! ## The ends of the line -/

@[simp] theorem toEReal_infinity : toEReal infinity = ⊤ := by
  rw [toEReal_eq_rankPoint isNaN_infinity, rank_infinity]
  exact if_pos (le_refl _)

@[simp] theorem toEReal_neg_infinity : toEReal (-infinity) = ⊥ := by
  rw [toEReal_eq_rankPoint isNaN_neg_infinity, rank_neg_infinity]
  unfold rankPoint
  rw [if_neg (by decide), if_pos (le_refl _)]

/-- A finite double stands for a real. -/
theorem toEReal_of_isFinite {v : Float} (h : v.isFinite = true) : toEReal v = toReal v := by
  unfold toEReal
  rw [((isFinite_iff v).mp h).2]
  rfl

theorem isNaN_of_isFinite {v : Float} (h : v.isFinite = true) : v.isNaN = false :=
  ((isFinite_iff v).mp h).1

theorem neg_infinity_lt {v : Float} (h : v.isFinite = true) : -infinity < v := by
  rw [← toEReal_lt_iff isNaN_neg_infinity (isNaN_of_isFinite h), toEReal_neg_infinity,
    toEReal_of_isFinite h]
  exact EReal.bot_lt_coe _

theorem lt_infinity {v : Float} (h : v.isFinite = true) : v < infinity := by
  rw [← toEReal_lt_iff (isNaN_of_isFinite h) isNaN_infinity, toEReal_infinity,
    toEReal_of_isFinite h]
  exact EReal.coe_lt_top _

/-- The infinities are the ends of the line. -/
theorem isInf_iff {v : Float} (h : v.isNaN = false) :
    v.isInf = true ↔ toEReal v = ⊤ ∨ toEReal v = ⊥ := by
  have hle := natAbs_rank_le h
  rw [isInf_iff_rank h, ← toEReal_infinity, ← toEReal_neg_infinity,
    toEReal_eq_iff_rank h isNaN_infinity, toEReal_eq_iff_rank h isNaN_neg_infinity,
    rank_infinity, rank_neg_infinity]
  omega

end PiecewiseLinear.Double
