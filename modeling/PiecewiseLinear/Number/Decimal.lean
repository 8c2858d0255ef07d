import PiecewiseLinear.Number.Rounding

/-!
# Decimals and numerals

A decimal is a coefficient times a power of ten. It is what a numeric literal
denotes before it is rounded to a double.

- `Decimal.trimmed`: the same value with no trailing zero in the coefficient.
- `Decimal.toFloat`, `Decimal.toFloatViaSingle`: the nearest double, directly or
  through single precision. Both depend on the value alone, since they start from the
  trimmed decimal.
- `Decimal.scan`: the longest literal at the head of a text, with what follows it.
- `Numeral.read?`: the numeral that a whole text is, if it is one.
- `Numeral.toFloat`: the nearest double.

A literal is `digits ['.' digits] [exponent]` or `'.' digits [exponent]`, where an
exponent is `e` or `E`, an optional sign and digits; all digits are ASCII. Digits
after the point may be missing where there are digits before it.

A numeral is a whole text that denotes a real number, an infinity or no number: an
optional sign, then `inf`, `infinity` or `nan` in any letter case, or a decimal literal.
-/

namespace PiecewiseLinear

/-- The decimal `coefficient · 10 ^ exponent`. -/
structure Decimal where
  coefficient : Nat
  exponent : Int
deriving DecidableEq, Repr

namespace Decimal

/-- Moves up to `fuel` trailing zeros of the coefficient into the exponent. -/
def trimmedUpTo : Nat → Decimal → Decimal
  | 0, d => d
  | fuel + 1, d =>
    if d.coefficient % 10 = 0 then trimmedUpTo fuel ⟨d.coefficient / 10, d.exponent + 1⟩ else d

/-- The same value with no trailing zero in the coefficient; zero is `0 · 10 ^ 0`. -/
def trimmed (d : Decimal) : Decimal :=
  if d.coefficient = 0 then ⟨0, 0⟩ else trimmedUpTo d.coefficient.log2 d

/-- A decimal as a ratio of naturals, handed to `round`. Powers of ten beyond every
binary format are not computed: a nonzero coefficient times `10 ^ 401` exceeds all
of them, and `c / 10 ^ n` is below half the least magnitude once `2 ^ (3 · n)`, which
is at most `10 ^ n`, passes `c · 2 ^ 1080`. -/
def roundWith (round : Nat → Nat → Float) (d : Decimal) : Float :=
  if d.coefficient = 0 then Double.zero
  else if 400 < d.exponent then Double.infinity
  else if (d.coefficient.log2 : Int) + 1081 < 3 * -d.exponent then Double.zero
  else round (d.coefficient * Nat.pow 10 d.exponent.toNat) (Nat.pow 10 (-d.exponent).toNat)

/-- The double nearest to a decimal. -/
def toFloat (d : Decimal) : Float := d.trimmed.roundWith Double.ofRatio

/-- The decimal rounded to single precision, as a double. -/
def toFloatViaSingle (d : Decimal) : Float := d.trimmed.roundWith Double.ofRatioViaSingle

/-! ## Reading literals -/

/-- The number that a run of digits denotes. -/
def value (digits : List Char) : Nat := Nat.ofDigitChars 10 digits 0

/-- The digits at the head of a text, and what follows them. -/
def scanDigits (s : List Char) : List Char × List Char :=
  (s.takeWhile Char.isDigit, s.dropWhile Char.isDigit)

/-- An exponent at the head of a text, or zero and the whole text when none is there. -/
def scanExponent (s : List Char) : Int × List Char :=
  match s with
  | [] => (0, [])
  | e :: afterE =>
    if e = 'e' ∨ e = 'E' then
      let (negative, body) : Bool × List Char :=
        match afterE with
        | '+' :: r => (false, r)
        | '-' :: r => (true, r)
        | r => (false, r)
      match scanDigits body with
      | ([], _) => (0, s)
      | (digits, rest) => (if negative then -(value digits : Int) else value digits, rest)
    else (0, s)

/-- The decimal with the given digits before and after the point, times `10 ^ exponent`. -/
def ofDigits (whole fraction : List Char) (exponent : Int) : Decimal :=
  ⟨value (whole ++ fraction), exponent - fraction.length⟩

/-- The longest literal at the head of a text, and what follows it. -/
def scan (s : List Char) : Option (Decimal × List Char) :=
  match scanDigits s with
  | ([], '.' :: afterPoint) =>
    match scanDigits afterPoint with
    | ([], _) => none
    | (fraction, rest) =>
      let (exponent, rest) := scanExponent rest
      some (ofDigits [] fraction exponent, rest)
  | ([], _) => none
  | (whole, '.' :: afterPoint) =>
    let (fraction, rest) := scanDigits afterPoint
    let (exponent, rest) := scanExponent rest
    some (ofDigits whole fraction exponent, rest)
  | (whole, rest) =>
    let (exponent, rest) := scanExponent rest
    some (ofDigits whole [] exponent, rest)

end Decimal

/-! ## Signed numerals -/

/-- What stands after the sign of a numeral. -/
inductive Magnitude where
  | infinite
  | undefined
  | decimal (d : Decimal)
deriving DecidableEq, Repr

/-- A sign and a magnitude. -/
structure Numeral where
  negative : Bool
  magnitude : Magnitude
deriving DecidableEq, Repr

namespace Magnitude

/-- The words that are read in any letter case. -/
def ofWord? (s : List Char) : Option Magnitude :=
  match String.ofList (s.map Char.toLower) with
  | "inf" => some .infinite
  | "infinity" => some .infinite
  | "nan" => some .undefined
  | _ => none

/-- The magnitude that a text without sign is. -/
def read? (s : List Char) : Option Magnitude :=
  match ofWord? s with
  | some magnitude => some magnitude
  | none =>
    match Decimal.scan s with
    | some (d, []) => some (.decimal d)
    | _ => none

/-- The double nearest to a magnitude, where `round` takes care of decimals. -/
def toFloatWith (round : Decimal → Float) : Magnitude → Float
  | infinite => Double.infinity
  | undefined => Double.nan
  | decimal d => round d

/-- The double nearest to a magnitude. -/
def toFloat (magnitude : Magnitude) : Float := magnitude.toFloatWith Decimal.toFloat

end Magnitude

namespace Numeral

/-- The numeral that a text is. -/
def read? (s : List Char) : Option Numeral :=
  match s with
  | '+' :: r => (Magnitude.read? r).map fun magnitude => ⟨false, magnitude⟩
  | '-' :: r => (Magnitude.read? r).map fun magnitude => ⟨true, magnitude⟩
  | r => (Magnitude.read? r).map fun magnitude => ⟨false, magnitude⟩

/-- The double with the sign of a numeral and the given magnitude. -/
def signed (negative : Bool) (magnitude : Float) : Float :=
  if negative then -magnitude else magnitude

/-- The double nearest to a numeral. -/
def toFloat (n : Numeral) : Float := signed n.negative n.magnitude.toFloat

/-- The numeral rounded to single precision, as a double. -/
def toFloatViaSingle (n : Numeral) : Float :=
  signed n.negative (n.magnitude.toFloatWith Decimal.toFloatViaSingle)

end Numeral

end PiecewiseLinear
