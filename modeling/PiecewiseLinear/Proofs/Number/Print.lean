import PiecewiseLinear.Proofs.Number.Literal
import PiecewiseLinear.Proofs.Number.Nearest

/-!
# Doubles in print

Two finite doubles have the same text only if they are one, the two zeros included: the sign is the
first character or it is not there, and the digits behind it read as the magnitude.

- `Decimal.shortest_neg`, `Decimal.magnitudeBits_toFloat_shortest`: the decimal in print is that of
  the magnitude.
- `exists_plain`: the sign and the digits of a finite double in the plain layout.
- `plain_inj`: a finite double is known by its text.
-/

namespace PiecewiseLinear

open Double (isNegative magnitudeBits)

namespace Decimal

/-- The decimal in print is that of the magnitude. -/
theorem shortest_neg (tie : Tie) {v : Float} (h : v.isNaN = false) :
    shortest tie (-v) = shortest tie v := by
  have hbits := Double.magnitudeBits_neg h
  have hparts : Double.parts (-v) = Double.parts v := by rw [Double.parts, Double.parts, hbits]
  have hratio : Double.ratio (-v) = Double.ratio v := by rw [Double.ratio, Double.ratio, hparts]
  have hneighbours : neighbours tie (-v) = neighbours tie v := by
    funext unit
    rw [neighbours, neighbours, hratio]
  have hreads : readsBack (-v) = readsBack v := by
    funext d
    rw [readsBack, readsBack, hbits]
  have hsearch (count : Nat) (unit : Int) :
      search tie (-v) count unit = search tie v count unit := by
    induction count generalizing unit with
    | zero => rfl
    | succ count ih => rw [search, search, hneighbours, hreads, ih]
  have hmagnitude : magnitude (-v) = magnitude v := by rw [magnitude, magnitude, hratio]
  have hexact : exact (-v) = exact v := by rw [exact, exact, hparts]
  rw [shortest, shortest, hbits, hsearch, hmagnitude, hexact]

/-- The decimal in print reads as the magnitude, whatever the sign is. -/
theorem magnitudeBits_toFloat_shortest (tie : Tie) {v : Float} (hfinite : v.isFinite = true) :
    magnitudeBits (shortest tie v).toFloat = magnitudeBits v := by
  cases hsign : isNegative v with
  | false => rw [toFloat_shortest tie hfinite hsign]
  | true =>
    have hnan := Double.isNaN_of_isFinite hfinite
    have hsign' : isNegative (-v) = false := by
      rw [Double.isNegative_neg hnan, hsign]
      rfl
    rw [← shortest_neg tie hnan, toFloat_shortest tie (Double.isFinite_neg hfinite) hsign',
      Double.magnitudeBits_neg hnan]

end Decimal

/-- A finite double in print is a sign, where it is negative, in front of digits. -/
theorem exists_plain {v : Float} (hfinite : v.isFinite = true) :
    ∃ digits, (Decimal.shortest .away v).IsPositional digits ∧
      (plain v).toList = (if isNegative v then ['-'] else []) ++ digits := by
  obtain ⟨hnan, hinf⟩ := (Double.isFinite_iff v).mp hfinite
  refine ⟨_, Decimal.isPositional_positionalText (Decimal.shortest .away v), ?_⟩
  rw [plain, Layout.write, hnan, hinf]
  cases isNegative v with
  | false => rfl
  | true => exact String.toList_append

/-- A double in print holds digits, a sign and a point. -/
theorem mem_plain {v : Float} (hfinite : v.isFinite = true) {c : Char}
    (hc : c ∈ (plain v).toList) : c.isDigit = true ∨ c = '-' ∨ c = '.' := by
  obtain ⟨digits, hdigits, htext⟩ := exists_plain hfinite
  obtain ⟨first, rest, rfl, hfirst, hrest⟩ := hdigits.eq_cons
  rw [htext, List.mem_append, List.mem_cons] at hc
  rcases hc with hc | rfl | hc
  · cases hsign : isNegative v with
    | false =>
      rw [hsign] at hc
      exact absurd hc List.not_mem_nil
    | true =>
      rw [hsign] at hc
      exact .inr (.inl (List.mem_singleton.mp hc))
  · exact .inl hfirst
  · exact (hrest c hc).imp_right .inr

/-- The first character tells the sign. -/
theorem head?_plain {v : Float} (hfinite : v.isFinite = true) :
    (plain v).toList.head? = some '-' ↔ isNegative v = true := by
  obtain ⟨digits, hdigits, htext⟩ := exists_plain hfinite
  obtain ⟨first, rest, rfl, hfirst, -⟩ := hdigits.eq_cons
  rw [htext]
  cases isNegative v with
  | true => exact iff_of_true rfl rfl
  | false =>
    refine iff_of_false ?_ Bool.false_ne_true
    rintro ⟨⟩
    cases hfirst

/-- **A finite double is known by its text**, and so are the two zeros. -/
theorem plain_inj {v w : Float} (hv : v.isFinite = true) (hw : w.isFinite = true) :
    plain v = plain w ↔ v = w := by
  refine ⟨fun h => ?_, congrArg plain⟩
  have hsign : isNegative v = isNegative w := by
    rw [Bool.eq_iff_iff, ← head?_plain hv, ← head?_plain hw, h]
  obtain ⟨digits, hdigits, htext⟩ := exists_plain hv
  obtain ⟨digits', hdigits', htext'⟩ := exists_plain hw
  rw [h, htext', hsign] at htext
  obtain rfl := List.append_cancel_left htext
  -- the same digits are read as the same real
  have hends : EndsLiteral [] := nofun
  obtain ⟨d, hscan, hreal⟩ := hdigits.scan_append hends
  obtain ⟨e, hscan', hreal'⟩ := hdigits'.scan_append hends
  obtain rfl : d = e := congrArg Prod.fst (Option.some.inj (hscan.symm.trans hscan'))
  refine Double.eq_of_sign_of_magnitudeBits hsign ?_
  rw [← Decimal.magnitudeBits_toFloat_shortest .away hv,
    ← Decimal.magnitudeBits_toFloat_shortest .away hw,
    Decimal.toFloat_congr (hreal.symm.trans hreal')]

end PiecewiseLinear
