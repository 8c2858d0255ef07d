import PiecewiseLinear.Number.Layout
import PiecewiseLinear.Proofs.Number.Decimal
import PiecewiseLinear.Proofs.Text.Parts

/-!
# Reading numbers in print

A number in the plain layout is a literal of scripts, and what is read off it is the number.

- `EndsLiteral`: texts that do not go on with a literal.
- `Decimal.IsPositional`: the positional notations of a decimal, and what is read off them.
- `scan_plain`: a finite double in the plain layout reads as itself.
-/

namespace PiecewiseLinear

/-- A text does not go on with a literal: neither with digits nor with a point or an exponent. -/
def EndsLiteral (rest : List Char) : Prop :=
  ∀ c ∈ rest.head?, c.isDigit = false ∧ c ≠ '.' ∧ c ≠ 'e' ∧ c ≠ 'E'

namespace Decimal

variable {whole fraction rest : List Char}

theorem scanDigits_append (hwhole : ∀ c ∈ whole, c.isDigit = true)
    (hrest : ∀ c ∈ rest.head?, c.isDigit = false) :
    scanDigits (whole ++ rest) = (whole, rest) := by
  obtain ⟨htake, hdrop⟩ := span_append hwhole hrest
  rw [scanDigits, htake, hdrop]

/-- Where a literal ends there is no exponent. -/
theorem scanExponent_of_endsLiteral (h : EndsLiteral rest) : scanExponent rest = (0, rest) := by
  cases rest with
  | nil => rfl
  | cons c rest =>
    obtain ⟨-, -, he, hE⟩ := h c rfl
    unfold scanExponent
    exact if_neg (not_or.mpr ⟨he, hE⟩)

/-- A literal begins with a digit or a point. -/
theorem scan_eq_none {s : List Char} (h : ∀ c ∈ s.head?, c.isDigit = false ∧ c ≠ '.') :
    scan s = none := by
  have hdigits : scanDigits ([] ++ s) = ([], s) :=
    scanDigits_append (fun _ hc => absurd hc List.not_mem_nil) fun c hc => (h c hc).1
  rw [List.nil_append] at hdigits
  rw [scan, hdigits]
  split
  · next heq =>
    cases heq
    exact absurd rfl (h '.' rfl).2
  · rfl
  · next hne heq =>
    cases heq
    exact absurd rfl hne
  · next hne _ heq =>
    cases heq
    exact absurd rfl hne

/-- What follows the digits of a whole number is read as its exponent. -/
theorem scan_whole (hne : whole ≠ []) (hwhole : ∀ c ∈ whole, c.isDigit = true)
    (hrest : ∀ c ∈ rest.head?, c.isDigit = false ∧ c ≠ '.') :
    scan (whole ++ rest) =
      some (ofDigits whole [] (scanExponent rest).1, (scanExponent rest).2) := by
  obtain ⟨d, whole, rfl⟩ := List.exists_cons_of_ne_nil hne
  rw [scan, scanDigits_append hwhole fun c hc => (hrest c hc).1]
  split
  · next heq => cases heq
  · next heq => cases heq
  · next heq =>
    -- a point would go on with the literal
    cases heq
    exact absurd rfl (hrest '.' rfl).2
  · next heq =>
    cases heq
    rfl

/-- Digits, a point and perhaps more digits are read together, whatever exponent follows. -/
theorem scan_point (hne : whole ≠ []) (hwhole : ∀ c ∈ whole, c.isDigit = true)
    (hfraction : ∀ c ∈ fraction, c.isDigit = true) (hrest : ∀ c ∈ rest.head?, c.isDigit = false) :
    scan (whole ++ '.' :: (fraction ++ rest)) =
      some (ofDigits whole fraction (scanExponent rest).1, (scanExponent rest).2) := by
  obtain ⟨d, whole, rfl⟩ := List.exists_cons_of_ne_nil hne
  have hpoint : ∀ c ∈ ('.' :: (fraction ++ rest)).head?, c.isDigit = false := by simp
  rw [scan, scanDigits_append hwhole hpoint]
  split
  · next heq => cases heq
  · next heq => cases heq
  · next heq =>
    cases heq
    rw [scanDigits_append hfraction hrest]
  · next hnoPoint heq =>
    cases heq
    exact (hnoPoint _ rfl).elim

/-- A point with digits behind it is read together, whatever exponent follows. -/
theorem scan_fraction (hne : fraction ≠ []) (hfraction : ∀ c ∈ fraction, c.isDigit = true)
    (hrest : ∀ c ∈ rest.head?, c.isDigit = false) :
    scan ('.' :: (fraction ++ rest)) =
      some (ofDigits [] fraction (scanExponent rest).1, (scanExponent rest).2) := by
  obtain ⟨d, fraction, rfl⟩ := List.exists_cons_of_ne_nil hne
  -- no digit stands in front of the point
  have hpoint : scanDigits ('.' :: (d :: fraction ++ rest)) = ([], '.' :: (d :: fraction ++ rest)) :=
    rfl
  rw [scan, hpoint]
  split
  · next heq =>
    cases heq
    rw [scanDigits_append hfraction hrest]
  · next hnoPoint heq =>
    cases heq
    exact (hnoPoint _ rfl).elim
  · next hwhole heq =>
    cases heq
    exact (hwhole rfl).elim
  · next hwhole _ heq =>
    cases heq
    exact (hwhole rfl).elim

/-! ## Positional notation -/

theorem isDigit_of_mem_toDigits {n : Nat} {c : Char} (h : c ∈ Nat.toDigits 10 n) :
    c.isDigit = true :=
  Nat.isDigit_of_mem_toDigits (by decide) (by decide) h

theorem value_toDigits (n : Nat) : value (Nat.toDigits 10 n) = n :=
  Nat.ofDigitChars_toDigits (by decide) (by decide)

theorem ofDigits_eq {d : Decimal} (hvalue : value (whole ++ fraction) = d.coefficient)
    (hlength : (fraction.length : Int) = -d.exponent) : ofDigits whole fraction 0 = d := by
  rw [ofDigits, hvalue, hlength, zero_sub, neg_neg]

/-- The positional notations of a decimal: a whole number that denotes the same real, or digits
with the point in its place. -/
inductive IsPositional (d : Decimal) : List Char → Prop where
  | whole {digits : List Char} (hne : digits ≠ []) (hdigits : ∀ c ∈ digits, c.isDigit = true)
      (hreal : (ofDigits digits [] 0).toReal = d.toReal) : IsPositional d digits
  | point {whole fraction : List Char} (hne : whole ≠ [])
      (hwhole : ∀ c ∈ whole, c.isDigit = true) (hfraction : ∀ c ∈ fraction, c.isDigit = true)
      (heq : ofDigits whole fraction 0 = d) : IsPositional d (whole ++ '.' :: fraction)

/-- A text in positional notation is a whole number, to which a point may be added, or has digits
on both sides of the point. -/
theorem exists_positionalText (keepsPoint : Bool) (d : Decimal) :
    (∃ whole, whole ≠ [] ∧ (∀ c ∈ whole, c.isDigit = true) ∧
      (ofDigits whole [] 0).toReal = d.toReal ∧
      (Layout.positionalText keepsPoint d).toList =
        whole ++ if keepsPoint then ['.', '0'] else []) ∨
    ∃ whole fraction, whole ≠ [] ∧ (∀ c ∈ whole, c.isDigit = true) ∧
      (∀ c ∈ fraction, c.isDigit = true) ∧ ofDigits whole fraction 0 = d ∧
      (Layout.positionalText keepsPoint d).toList = whole ++ '.' :: fraction := by
  have hdigits : ∀ c ∈ Nat.toDigits 10 d.coefficient, c.isDigit = true :=
    fun c => isDigit_of_mem_toDigits
  have hzeros (n : Nat) : ∀ c ∈ List.replicate n '0', c.isDigit = true := by
    intro c hc
    rw [List.eq_of_mem_replicate hc]
    rfl
  unfold Layout.positionalText
  dsimp only
  -- zeros behind the digits, the point among the digits, or zeros in front of them
  by_cases hwhole : 0 ≤ d.exponent
  · obtain ⟨n, hn⟩ := Int.eq_ofNat_of_zero_le hwhole
    refine .inl ⟨Nat.toDigits 10 d.coefficient ++ List.replicate d.exponent.toNat '0', ?_,
      fun c hc => ?_, ?_, ?_⟩
    · simp [Nat.toDigits_ne_nil]
    · exact (List.mem_append.mp hc).elim (hdigits c) (hzeros _ c)
    · rw [toReal, toReal, hn, ofDigits, value, List.append_nil, Nat.ofDigitChars_append,
        ← value, value_toDigits]
      simp [mul_comm]
    · rw [if_pos hwhole]
      cases keepsPoint <;> simp
  · refine .inr ?_
    rw [if_neg hwhole]
    split_ifs with hsplit <;> rw [String.toList_ofList]
    · refine ⟨_, _, ?_, fun c hc => hdigits c (List.mem_of_mem_take hc),
        fun c hc => hdigits c (List.mem_of_mem_drop hc), ofDigits_eq ?_ ?_, rfl⟩
      · rw [ne_eq, List.take_eq_nil_iff]
        simp [Nat.toDigits_ne_nil]
        omega
      · rw [List.take_append_drop, value_toDigits]
      · rw [List.length_drop]
        omega
    · refine ⟨_, _, List.cons_ne_nil '0' [], by simp, fun c hc => ?_, ofDigits_eq ?_ ?_, rfl⟩
      · exact (List.mem_append.mp hc).elim (hzeros _ c) (hdigits c)
      · -- zeros in front of the digits add nothing
        show value (List.replicate 1 '0' ++ (List.replicate _ '0' ++ _)) = _
        rw [value, Nat.ofDigitChars_append, Nat.ofDigitChars_replicate_zero,
          Nat.ofDigitChars_append, Nat.ofDigitChars_replicate_zero]
        exact value_toDigits _
      · show ((List.replicate _ '0' ++ _ : List Char).length : Int) = _
        rw [List.length_append, List.length_replicate]
        omega

theorem isPositional_positionalText (d : Decimal) :
    IsPositional d (Layout.positionalText false d).toList := by
  obtain ⟨whole, hne, hwhole, hreal, htext⟩ |
    ⟨whole, fraction, hne, hwhole, hfraction, heq, htext⟩ := exists_positionalText false d
  · rw [htext, if_neg Bool.false_ne_true, List.append_nil]
    exact .whole hne hwhole hreal
  · rw [htext]
    exact .point hne hwhole hfraction heq

variable {d : Decimal} {s : List Char}

/-- Positional notation is read as a whole where the literal ends, as a decimal that denotes the
same real. -/
theorem IsPositional.scan_append (h : IsPositional d s) (hrest : EndsLiteral rest) :
    ∃ e, scan (s ++ rest) = some (e, rest) ∧ e.toReal = d.toReal := by
  cases h with
  | whole hne hdigits hreal =>
    rw [scan_whole hne hdigits fun c hc => ⟨(hrest c hc).1, (hrest c hc).2.1⟩,
      scanExponent_of_endsLiteral hrest]
    exact ⟨_, rfl, hreal⟩
  | point hne hwhole hfraction heq =>
    rw [List.append_assoc, List.cons_append,
      scan_point hne hwhole hfraction fun c hc => (hrest c hc).1,
      scanExponent_of_endsLiteral hrest]
    exact ⟨_, rfl, congrArg toReal heq⟩

/-- Positional notation begins with a digit, and digits and a point are all that it holds. -/
theorem IsPositional.eq_cons (h : IsPositional d s) :
    ∃ c r, s = c :: r ∧ c.isDigit = true ∧ ∀ c ∈ r, c.isDigit = true ∨ c = '.' := by
  cases h with
  | whole hne hdigits =>
    obtain ⟨c, r, rfl⟩ := List.exists_cons_of_ne_nil hne
    obtain ⟨hc, hr⟩ := List.forall_mem_cons.mp hdigits
    exact ⟨c, r, rfl, hc, fun c h => .inl (hr c h)⟩
  | point hne hwhole hfraction =>
    obtain ⟨c, r, rfl⟩ := List.exists_cons_of_ne_nil hne
    obtain ⟨hc, hr⟩ := List.forall_mem_cons.mp hwhole
    refine ⟨c, _, rfl, hc, fun c h => ?_⟩
    rcases List.mem_append.mp h with h | h
    · exact .inl (hr c h)
    · exact (List.mem_cons.mp h).symm.imp_left (hfraction c)

end Decimal

/-! ## Doubles in print -/

variable {v : Float}

theorem isPositional_plain (hfinite : v.isFinite = true) (hsign : Double.isNegative v = false) :
    (Decimal.shortest .away v).IsPositional (plain v).toList := by
  obtain ⟨hnan, hinf⟩ := (Double.isFinite_iff v).mp hfinite
  rw [plain, Layout.write, hnan, hinf, hsign]
  exact Decimal.isPositional_positionalText _

/-- **A double in print reads as itself.** -/
theorem scan_plain (hfinite : v.isFinite = true) (hsign : Double.isNegative v = false)
    {rest : List Char} (hrest : EndsLiteral rest) :
    ∃ d, Decimal.scan ((plain v).toList ++ rest) = some (d, rest) ∧ d.toFloat = v := by
  obtain ⟨d, hscan, hreal⟩ := (isPositional_plain hfinite hsign).scan_append hrest
  refine ⟨d, hscan, ?_⟩
  rw [Decimal.toFloat_congr hreal, Decimal.toFloat_shortest .away hfinite hsign]

end PiecewiseLinear
