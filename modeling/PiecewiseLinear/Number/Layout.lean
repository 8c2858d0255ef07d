import PiecewiseLinear.Number.Decimal

/-!
# Writing doubles

The decimal that stands for a double in print is the one with the fewest digits that
reads back as that double, and among those the one nearest to it. A layout fixes how it is
spelled: where positional notation ends, whether a point is kept, and how an exponent is signed.

- `Decimal.exact v`: the decimal equal to a finite magnitude.
- `Decimal.neighbours tie v unit`: the two decimals next to a magnitude on a decimal grid.
- `Decimal.search`: the first of them that reads back, on finer and finer grids.
- `Decimal.shortest tie v`: the decimal in print.
- `Layout`: the decisions of a layout.
- `Layout.write`: the text of a double under a layout.
- `Layout.plain`, `plain`: never an exponent and never a needless point, as in messages,
  expressions and domains.

Reading back is tested with `Decimal.toFloat` itself, so a result of the search reads
back by construction. Seventeen digits always suffice; the exact expansion closes the
search for totality.
-/

namespace PiecewiseLinear

/-! ## Shortest decimals -/

/-- Which of two equally near decimals is the nearer one. -/
inductive Tie where
  | toEven
  | away
deriving DecidableEq, Repr

namespace Decimal

/-- The decimal equal to the magnitude of a finite double. -/
def exact (v : Float) : Decimal :=
  let (m, q) := Double.parts v
  (⟨(m <<< q.toNat) * Nat.pow 5 (-q).toNat, min q 0⟩ : Decimal).trimmed

/-- The number `k` with `10 ^ (k - 1) ≤ v < 10 ^ k`, for a positive finite magnitude.
Every positive double exceeds `10 ^ -324`, so its first `343` decimal places show a
digit. -/
def magnitude (v : Float) : Int :=
  let (num, den) := Double.ratio v
  (Nat.toDigits 10 (num * Nat.pow 10 343 / den)).length - 343

/-- The decimals next to a magnitude in units of `10 ^ unit`, the nearer one first.
Of two equally near the one that `tie` asks for comes first. -/
def neighbours (tie : Tie) (v : Float) (unit : Int) : List Decimal :=
  let (num, den) := Double.ratio v
  let num := num * Nat.pow 10 (-unit).toNat
  let den := den * Nat.pow 10 unit.toNat
  let quotient := num / den
  let below : Decimal := ⟨quotient, unit⟩
  let above : Decimal := ⟨quotient + 1, unit⟩
  match compare (2 * (num % den)) den with
  | .lt => [below, above]
  | .gt => [above, below]
  | .eq => if tie = .toEven ∧ quotient % 2 = 0 then [below, above] else [above, below]

/-- Whether a decimal reads back as the magnitude of `v`. -/
def readsBack (v : Float) (d : Decimal) : Bool :=
  Double.magnitudeBits d.toFloat == Double.magnitudeBits v

/-- The first neighbour of a magnitude that reads back, in units that shrink from
`10 ^ unit` by a factor of ten at a time. -/
def search (tie : Tie) (v : Float) : Nat → Int → Option Decimal
  | 0, _ => none
  | count + 1, unit =>
    match (neighbours tie v unit).find? (readsBack v) with
    | some d => some d
    | none => search tie v count (unit - 1)

/-- The decimal in print for the magnitude of a finite double. -/
def shortest (tie : Tie) (v : Float) : Decimal :=
  if Double.magnitudeBits v = 0 then ⟨0, 0⟩
  else
    match search tie v 17 (magnitude v - 1) with
    | some d => d.trimmed
    | none => exact v

end Decimal

/-! ## Layouts -/

/-- How a finite double is spelled. -/
structure Layout where
  /-- The exponents of the leading digit that are written positionally, from the first up to
  but not including the second; everything is positional when there is no such range. -/
  positional : Option (Int × Int)
  /-- Whether a positional text without a fraction ends in `.0`. -/
  keepsPoint : Bool
  /-- Whether a positive exponent carries its sign. -/
  signsExponent : Bool
  /-- Which of two equally near shortest decimals is written. -/
  tie : Tie

namespace Layout

/-- Always positional and without a needless point: `1`, `-0`, `0.1`. -/
def plain : Layout := ⟨none, false, false, .away⟩

/-- The digits of a decimal, with the point in place. -/
def positionalText (keepsPoint : Bool) (d : Decimal) : String :=
  let digits := Nat.toDigits 10 d.coefficient
  let places := (-d.exponent).toNat
  if 0 ≤ d.exponent then
    let whole := String.ofList (digits ++ List.replicate d.exponent.toNat '0')
    if keepsPoint then whole ++ ".0" else whole
  else if places < digits.length then
    let split := digits.length - places
    String.ofList (digits.take split ++ '.' :: digits.drop split)
  else
    String.ofList ('0' :: '.' :: List.replicate (places - digits.length) '0' ++ digits)

/-- One digit before the point, the others after it, and the exponent. -/
def scientificText (signsExponent : Bool) (d : Decimal) : String :=
  let digits := Nat.toDigits 10 d.coefficient
  let exponent : Int := d.exponent + digits.length - 1
  let fraction := digits.drop 1
  let mantissa :=
    if fraction.isEmpty then digits else digits.take 1 ++ '.' :: fraction
  let sign := if exponent < 0 then "-" else if signsExponent then "+" else ""
  String.ofList mantissa ++ "e" ++ sign ++ toString exponent.natAbs

/-- Whether a decimal is written positionally. Zero always is. -/
def isPositional (layout : Layout) (d : Decimal) : Bool :=
  match layout.positional with
  | none => true
  | some (low, high) =>
    let leading : Int := d.exponent + (Nat.toDigits 10 d.coefficient).length - 1
    d.coefficient = 0 || (low ≤ leading && leading < high)

/-- The text of a decimal. -/
def decimal (layout : Layout) (d : Decimal) : String :=
  if layout.isPositional d then positionalText layout.keepsPoint d
  else scientificText layout.signsExponent d

/-- The text of a double: its sign and the text of its shortest decimal. The sign of a
zero is written; a value that is no number has none. -/
def write (layout : Layout) (v : Float) : String :=
  if v.isNaN then "NaN"
  else
    let magnitude := if v.isInf then "inf" else layout.decimal (Decimal.shortest layout.tie v)
    if Double.isNegative v then "-" ++ magnitude else magnitude

end Layout

/-- The text of a double in the plain layout. -/
def plain (v : Float) : String := Layout.plain.write v

end PiecewiseLinear
