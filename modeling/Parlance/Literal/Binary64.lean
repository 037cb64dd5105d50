/-!
# Decimal numbers in binary64

The bits of the binary64 number nearest to a decimal number, with ties going to
the even neighbour. A magnitude too large for the format becomes infinity and one
too small becomes zero; the sign is kept in every case. The computation is exact
arithmetic on natural numbers.
-/

namespace Parlance.Literal

/-- The quotient rounded to the nearest integer, ties to even. -/
def roundedQuotient (numerator denominator : Nat) : Nat :=
  let quotient := numerator / denominator
  let excess := 2 * (numerator % denominator)
  if denominator < excess || (excess = denominator && quotient % 2 = 1) then quotient + 1
  else quotient

/-- The bits of positive infinity. -/
def infinityBits : Nat := 0x7FF * Nat.pow 2 52

/-- The bits of the binary64 number nearest to a positive fraction. The exponent
is chosen so that the integer part of the scaled fraction has 53 bits, or is the
least one of the format; adding the rounded significand to the shifted exponent
then carries into the next exponent by itself. -/
def fractionBits (numerator denominator : Nat) : Nat :=
  let estimate : Int := (Nat.log2 numerator : Int) - Nat.log2 denominator
  let scaled (shift : Int) : Nat × Nat :=
    if 0 ≤ shift then (numerator, denominator * Nat.pow 2 shift.toNat)
    else (numerator * Nat.pow 2 (-shift).toNat, denominator)
  let first := scaled (estimate - 52)
  let exact := if first.1 / first.2 < Nat.pow 2 52 then estimate - 53 else estimate - 52
  let shift := max exact (-1074)
  let chosen := scaled shift
  min infinityBits ((shift + 1074).toNat * Nat.pow 2 52 + roundedQuotient chosen.1 chosen.2)

/-- The bits of the binary64 number nearest to `significand * 10 ^ exponent`. The
number of decimal digits settles magnitudes far outside the format, so that no
huge power is computed for them. -/
def magnitudeBits (significand : Nat) (exponent : Int) : Nat :=
  let magnitude := ((Nat.toDigits 10 significand).length : Int) + exponent
  if significand = 0 || magnitude < -330 then 0
  else if 310 < magnitude then infinityBits
  else if 0 ≤ exponent then fractionBits (significand * Nat.pow 10 exponent.toNat) 1
  else fractionBits significand (Nat.pow 10 (-exponent).toNat)

/-- The bits of a signed decimal number. -/
def binary64 (negative : Bool) (significand : Nat) (exponent : Int) : Nat :=
  (if negative then Nat.pow 2 63 else 0) + magnitudeBits significand exponent

end Parlance.Literal
