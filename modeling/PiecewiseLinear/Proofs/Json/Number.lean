import PiecewiseLinear.Json.Reader
import PiecewiseLinear.Proofs.Number.Print
import PiecewiseLinear.Proofs.Script.Piece

/-!
# Numbers in JSON

A finite double in print is a number with a fraction or an exponent and reads back as that double;
an integer in print has neither and reads back as that integer.

- `Decimal.IsFractional`: literals with a fraction or an exponent, for the real of a decimal.
- `Layout.isFractional_decimal`: a layout that keeps the point writes such literals, be they
  positional or scientific.
- `Json.readNumber_number`, `Json.readNumber_int`: numbers in print read back.
-/

namespace PiecewiseLinear

open Script (IsDigits IsExponent IsLiteral)

variable {s rest : List Char}

theorem isDigits_toDigits (n : Nat) : IsDigits (Nat.toDigits 10 n) :=
  ⟨Nat.toDigits_ne_nil, fun _ => Decimal.isDigit_of_mem_toDigits⟩

/-! ## Literals with a fraction or an exponent -/

namespace Decimal

/-- A literal that does not end with the digits it begins with, and denotes the real of a
decimal. -/
structure IsFractional (d : Decimal) (s : List Char) : Prop where
  isLiteral : ∃ e, IsLiteral s e ∧ e.toReal = d.toReal
  eq_append : ∃ whole tail, s = whole ++ tail ∧ IsDigits whole ∧ tail ≠ [] ∧
    ∀ c ∈ tail.head?, c.isDigit = false

theorem IsFractional.of_point {whole fraction e : List Char} {n : Int} {d : Decimal}
    (hwhole : IsDigits whole) (hfraction : ∀ c ∈ fraction, c.isDigit = true)
    (he : IsExponent e n) (hreal : (ofDigits whole fraction n).toReal = d.toReal) :
    IsFractional d (whole ++ '.' :: (fraction ++ e)) :=
  ⟨⟨_, .point hwhole hfraction he, hreal⟩, whole, _, rfl, hwhole, List.cons_ne_nil _ _, by simp⟩

/-- A zero behind the point adds nothing. -/
theorem toReal_ofDigits_zero (whole : List Char) :
    (ofDigits whole ['0'] 0).toReal = (ofDigits whole [] 0).toReal := by
  rw [toReal, toReal, ofDigits, ofDigits, value, value, List.append_nil, Nat.ofDigitChars_append]
  show ((10 * Nat.ofDigitChars 10 whole 0 + 0 : Nat) : ℝ) * 10 ^ (0 - 1 : Int) =
    (Nat.ofDigitChars 10 whole 0 : ℝ) * 10 ^ (0 - 0 : Int)
  push_cast
  rw [add_zero, zpow_zero, zpow_neg_one, mul_comm (10 : ℝ), mul_one,
    mul_inv_cancel_right₀ (by norm_num)]

/-- Positional notation that keeps the point is a literal for its decimal, with a fraction behind
its first digits. -/
theorem isFractional_positionalText (d : Decimal) :
    IsFractional d (Layout.positionalText true d).toList := by
  obtain ⟨whole, hne, hwhole, hreal, htext⟩ |
    ⟨whole, fraction, hne, hwhole, hfraction, heq, htext⟩ := exists_positionalText true d
  · rw [htext, if_pos rfl]
    have hzero : ∀ c ∈ ['0'], c.isDigit = true := by simp
    show IsFractional d (whole ++ '.' :: (['0'] ++ []))
    exact .of_point ⟨hne, hwhole⟩ hzero .none ((toReal_ofDigits_zero whole).trans hreal)
  · rw [htext, ← List.append_nil fraction]
    exact .of_point ⟨hne, hwhole⟩ hfraction .none (by rw [heq])

/-- The exponent of a text in scientific notation. -/
def exponentText (signsExponent : Bool) (n : Int) : List Char :=
  'e' :: ((if n < 0 then "-" else if signsExponent then "+" else "").toList ++
    (toString n.natAbs).toList)

/-- The exponent of scientific notation is the exponent of a literal, with either way of signing
it. -/
theorem isExponent_exponentText (signsExponent : Bool) (n : Int) :
    IsExponent (exponentText signsExponent n) n := by
  have hdigits := isDigits_toDigits n.natAbs
  have hvalue := value_toDigits n.natAbs
  have htext : (toString n.natAbs).toList = Nat.toDigits 10 n.natAbs := String.toList_ofList
  rw [exponentText, htext]
  split_ifs with hneg
  · have hminus := IsExponent.minus (.inl rfl) hdigits
    rwa [hvalue, Int.ofNat_natAbs_of_nonpos hneg.le, neg_neg] at hminus
  · have hplus := IsExponent.plus (.inl rfl) hdigits
    rwa [hvalue, Int.natAbs_of_nonneg (not_lt.mp hneg)] at hplus
  · have hplain := IsExponent.plain (.inl rfl) hdigits
    rwa [hvalue, Int.natAbs_of_nonneg (not_lt.mp hneg)] at hplain

/-- Scientific notation is a literal for its decimal, and its exponent makes it more than digits. -/
theorem isFractional_scientificText (signsExponent : Bool) (d : Decimal) :
    IsFractional d (Layout.scientificText signsExponent d).toList := by
  have hdigits := isDigits_toDigits d.coefficient
  have hvalue := value_toDigits d.coefficient
  obtain ⟨first, fraction, hsplit⟩ := List.exists_cons_of_ne_nil hdigits.ne_nil
  rw [hsplit] at hdigits hvalue
  obtain ⟨hfirst, hfraction⟩ := List.forall_mem_cons.mp hdigits.isDigit
  have hwhole : IsDigits [first] := ⟨List.cons_ne_nil _ _, by simpa using hfirst⟩
  have htext : (Layout.scientificText signsExponent d).toList =
      (if fraction.isEmpty then [first] else [first] ++ '.' :: fraction) ++
        exponentText signsExponent (d.exponent + (first :: fraction).length - 1) := by
    unfold Layout.scientificText exponentText
    simp only [hsplit, List.drop_succ_cons, List.drop_zero, String.toList_append,
      String.toList_ofList, List.append_assoc]
    cases fraction <;> rfl
  have he := isExponent_exponentText signsExponent (d.exponent + (first :: fraction).length - 1)
  -- the exponent is counted from the first digit, that of the decimal from the last
  have hd : ofDigits [first] fraction (d.exponent + (first :: fraction).length - 1) = d := by
    have hexponent : d.exponent + (first :: fraction).length - 1 - fraction.length =
        d.exponent := by
      rw [List.length_cons]
      omega
    rw [ofDigits, List.singleton_append, hvalue, hexponent]
  rw [htext]
  cases fraction with
  | nil =>
    have hliteral := IsLiteral.whole hwhole he
    rw [hd] at hliteral
    exact ⟨⟨d, hliteral, rfl⟩, [first], _, rfl, hwhole, List.cons_ne_nil _ _,
      by simp [exponentText]⟩
  | cons second fraction =>
    have hpoint := IsFractional.of_point hwhole hfraction he (by rw [hd])
    simpa using hpoint

end Decimal

/-- A layout that keeps the point writes decimals with a fraction or an exponent. -/
theorem Layout.isFractional_decimal {layout : Layout} (h : layout.keepsPoint = true)
    (d : Decimal) : d.IsFractional (layout.decimal d).toList := by
  unfold decimal
  split_ifs
  · rw [h]
    exact Decimal.isFractional_positionalText d
  · exact Decimal.isFractional_scientificText _ d

/-! ## Numbers in print -/

namespace Json

/-- A literal with a fraction or an exponent is read as a real. -/
theorem readMagnitude_of_isFractional {d : Decimal} (h : d.IsFractional s)
    (hrest : EndsLiteral rest) (negative : Bool) :
    readMagnitude negative (s ++ rest) =
      some (.real (Numeral.signed negative d.toFloat), rest) := by
  obtain ⟨⟨e, hliteral, hreal⟩, whole, tail, rfl, hwhole, hne, htail⟩ := h
  have hdigits : Decimal.scanDigits (whole ++ tail ++ rest) = (whole, tail ++ rest) := by
    rw [List.append_assoc]
    refine Decimal.scanDigits_append hwhole.isDigit ?_
    rwa [List.head?_append_of_ne_nil tail hne]
  have hlonger : tail ++ rest ≠ rest := by
    intro heq
    exact hne (List.append_left_eq_self.mp heq)
  rw [readMagnitude, hliteral.scan_append hrest, hdigits, Option.map_some]
  dsimp only
  rw [if_neg hlonger, Decimal.toFloat_congr hreal]

/-- Digits alone are read as an integer. -/
theorem readMagnitude_of_isDigits {digits : List Char} (h : IsDigits digits)
    (hrest : EndsLiteral rest) (negative : Bool) :
    readMagnitude negative (digits ++ rest) =
      some (.int (if negative then -(Decimal.value digits : Int) else Decimal.value digits),
        rest) := by
  have hdigits := Decimal.scanDigits_append h.isDigit fun c hc => (hrest c hc).1
  have hliteral := IsLiteral.whole h .none
  rw [List.append_nil] at hliteral
  rw [readMagnitude, hliteral.scan_append hrest, hdigits, Option.map_some]
  exact congrArg some (if_pos rfl)

theorem readNumber_of_isDigit {c : Char} (h : c.isDigit = true) (s : List Char) :
    readNumber (c :: s) = readMagnitude false (c :: s) := by
  unfold readNumber
  split
  · next heq =>
    cases heq
    cases h
  · rfl

/-- **A finite double in print** reads back. -/
theorem readNumber_number {v : Float} (hfinite : v.isFinite = true) (hrest : EndsLiteral rest) :
    readNumber ((number v).toList ++ rest) = some (.real v, rest) := by
  obtain ⟨hnan, hinf⟩ := (Double.isFinite_iff v).mp hfinite
  have hfractional := Layout.json.isFractional_decimal rfl
    (Decimal.shortest Layout.json.tie v)
  rw [number, hfinite, if_pos rfl, Layout.write, hnan, hinf]
  simp only [Bool.false_eq_true, if_false]
  cases hsign : Double.isNegative v with
  | false =>
    rw [if_neg Bool.false_ne_true]
    obtain ⟨-, whole, tail, htext, hwhole, -, -⟩ := id hfractional
    obtain ⟨c, whole, rfl⟩ := List.exists_cons_of_ne_nil hwhole.ne_nil
    rw [htext] at hfractional ⊢
    have hmagnitude := readMagnitude_of_isFractional hfractional hrest false
    rw [List.cons_append, List.cons_append] at hmagnitude ⊢
    rw [readNumber_of_isDigit (hwhole.isDigit c List.mem_cons_self), hmagnitude,
      Decimal.toFloat_shortest _ hfinite hsign]
    rfl
  | true =>
    have hsign' : Double.isNegative (-v) = false := by
      rw [Double.isNegative_neg hnan, hsign]
      rfl
    have hmagnitude := readMagnitude_of_isFractional hfractional hrest true
    rw [← Decimal.shortest_neg _ hnan] at hmagnitude ⊢
    rw [Decimal.toFloat_shortest _ (Double.isFinite_neg hfinite) hsign'] at hmagnitude
    rw [Numeral.signed, if_pos rfl, Double.neg_neg_eq hnan] at hmagnitude
    rw [if_pos rfl, String.toList_append]
    exact hmagnitude

/-- **An integer in print** reads back. -/
theorem readNumber_int (n : Int) (hrest : EndsLiteral rest) :
    readNumber ((toString n).toList ++ rest) = some (.int n, rest) := by
  cases n with
  | ofNat n =>
    have htext : (toString (Int.ofNat n)).toList = Nat.toDigits 10 n := String.toList_ofList
    have hmagnitude := readMagnitude_of_isDigits (isDigits_toDigits n) hrest false
    rw [Decimal.value_toDigits] at hmagnitude
    obtain ⟨c, digits, hsplit⟩ := List.exists_cons_of_ne_nil (isDigits_toDigits n).ne_nil
    have hc := (isDigits_toDigits n).isDigit c (hsplit ▸ List.mem_cons_self)
    rw [htext, hsplit, List.cons_append, readNumber_of_isDigit hc, ← List.cons_append, ← hsplit]
    exact hmagnitude
  | negSucc n =>
    have htext : (toString (Int.negSucc n)).toList = '-' :: Nat.toDigits 10 (n + 1) := by
      rw [show toString (Int.negSucc n) = "-" ++ toString (n + 1) from rfl, String.toList_append]
      exact congrArg _ String.toList_ofList
    have hmagnitude := readMagnitude_of_isDigits (isDigits_toDigits (n + 1)) hrest true
    rw [Decimal.value_toDigits] at hmagnitude
    rw [htext]
    exact hmagnitude

end Json

end PiecewiseLinear
