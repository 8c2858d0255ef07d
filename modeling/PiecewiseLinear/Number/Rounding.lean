/-!
# Rounding to binary floating point

Exact rationals are rounded to the nearest double here, in natural-number
arithmetic, so that reading a decimal needs no rounding of its own.

- `roundQuotient num den`: the natural nearest to `num / den`, ties to even.
- `BinaryFormat`: how many significant bits a format keeps, and its finest place.
- `Double.ofRatio num den`: the double nearest to `num / den`.
- `Double.ofRatioViaSingle num den`: the same through single precision.
- `Double.ofInt n`: the double nearest to an integer.
- `Double.parts v`: the significand and place of a finite double's magnitude.

The magnitude of a double is `m · 2 ^ q` with `q ≥ -1074`, and its bits without
the sign are `(q + 1074) · 2 ^ 52 + m`: one formula for normal and subnormal
magnitudes, and a significand that rounding carried to `2 ^ 53` lands on the next
binade by itself.
-/

namespace PiecewiseLinear

/-- The natural number nearest to `num / den`; of two equally near the even one. -/
def roundQuotient (num den : Nat) : Nat :=
  let quotient := num / den
  let twice := 2 * (num % den)
  if twice < den ∨ (twice = den ∧ quotient % 2 = 0) then quotient else quotient + 1

/-- A binary format: the number of significant bits, and the exponent of the last
place that a magnitude can have. -/
structure BinaryFormat where
  precision : Nat
  leastPlace : Int

namespace BinaryFormat

/-- Double precision: 53 significant bits, none below `2 ^ -1074`. -/
def double : BinaryFormat := ⟨53, -1074⟩

/-- Single precision: 24 significant bits, none below `2 ^ -149`. -/
def single : BinaryFormat := ⟨24, -149⟩

/-- The exponent of the last place kept of `num / den`: the one that leaves exactly
`precision` bits before the cut, unless that is finer than the format allows. -/
def place (format : BinaryFormat) (num den : Nat) : Int :=
  let guess : Int := (num.log2 : Int) - den.log2 - format.precision
  let limit := guess + format.precision
  let fits := num <<< (-limit).toNat < den <<< limit.toNat
  max (if fits then guess else guess + 1) format.leastPlace

/-- The quotient `num / den` in units of `2 ^ place`, rounded to a natural number. -/
def significand (place : Int) (num den : Nat) : Nat :=
  roundQuotient (num <<< (-place).toNat) (den <<< place.toNat)

end BinaryFormat

namespace Double

/-- The positive zero. -/
def zero : Float := Float.ofBits 0

/-- The number of magnitudes in a binade, `2 ^ 52`; each has a pattern of fraction bits. -/
def binade : Nat := 1 <<< 52

/-- The bits of positive infinity; those of every finite magnitude are smaller. -/
def infinityBits : Nat := 2047 * binade

/-- The positive infinity. -/
def infinity : Float := Float.ofBits (UInt64.ofNat infinityBits)

/-- The value that is no number. -/
def nan : Float := Float.ofBits (UInt64.ofNat (infinityBits + binade / 2))

/-- The double with magnitude `m · 2 ^ q`, or infinity when that is too large. -/
def ofSignificand (m : Nat) (q : Int) : Float :=
  Float.ofBits (UInt64.ofNat (min infinityBits ((q + 1074).toNat * binade + m)))

/-- The double nearest to the rational `num / den`, ties to the even significand. -/
def ofRatio (num den : Nat) : Float :=
  if num = 0 then zero
  else
    let q := BinaryFormat.double.place num den
    ofSignificand (BinaryFormat.significand q num den) q

/-- The rational `num / den` rounded to single precision and then widened, which is
exact. A magnitude that rounds to `2 ^ 128` or more overflows single precision. -/
def ofRatioViaSingle (num den : Nat) : Float :=
  if num = 0 then zero
  else
    let q := BinaryFormat.single.place num den
    let m := BinaryFormat.significand q num den
    if 1 <<< 128 ≤ m <<< q.toNat then infinity
    else ofRatio (m <<< q.toNat) (1 <<< (-q).toNat)

/-- The double nearest to an integer, ties to even. -/
def ofInt (n : Int) : Float :=
  if n < 0 then -ofRatio n.natAbs 1 else ofRatio n.natAbs 1

/-- The sign bit. -/
def signBit : Nat := 2048 * binade

/-- The bits of a double without its sign. -/
def magnitudeBits (v : Float) : Nat := v.toBits.toNat % signBit

/-- Whether the sign bit is set. -/
def isNegative (v : Float) : Bool := signBit ≤ v.toBits.toNat

/-- The magnitude of a finite double as `m · 2 ^ q`. -/
def parts (v : Float) : Nat × Int :=
  let bits := magnitudeBits v
  if bits < binade then (bits, -1074)
  else (bits % binade + binade, (bits / binade : Nat) - 1075)

/-- The magnitude of a finite double as a ratio of naturals. -/
def ratio (v : Float) : Nat × Nat :=
  let (m, q) := parts v
  (m <<< q.toNat, 1 <<< (-q).toNat)

end Double

end PiecewiseLinear
