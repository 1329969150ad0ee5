import Mathlib.Algebra.Group.Nat.Defs
import Mathlib.Data.Nat.Log

/-!
IEEE 754 binary interchange formats over natural-number bit patterns, and the
rendering of a positive fraction with a fixed number of significant decimal
digits. Rounding is to nearest, ties to even.
-/

namespace DanWs.BinaryFloat

/-- `numerator / denominator` rounded to the nearest integer, ties to even. -/
def roundHalfEven (numerator denominator : Nat) : Nat :=
  let quotient := numerator / denominator
  let twice := 2 * (numerator % denominator)
  if twice < denominator then quotient
  else if denominator < twice then quotient + 1
  else quotient + quotient % 2

/-- The integer exponent `k` with `base ^ k ≤ numerator / denominator`, largest
possible, for a positive fraction. -/
def floorLog (base numerator denominator : Nat) : Int :=
  if denominator ≤ numerator then Nat.log base (numerator / denominator)
  else -(Nat.clog base ((denominator + numerator - 1) / numerator) : Int)

/-- The fraction divided by `base ^ exponent`, rounded. -/
def roundScaled (base numerator denominator : Nat) (exponent : Int) : Nat :=
  roundHalfEven (numerator * base ^ (-exponent).toNat) (denominator * base ^ exponent.toNat)

structure Format where
  exponentBits : Nat
  fractionBits : Nat

def binary32 : Format := ⟨8, 23⟩
def binary64 : Format := ⟨11, 52⟩

namespace Format

variable (format : Format)

def bias : Nat := 2 ^ (format.exponentBits - 1) - 1

def signBit (bits : Nat) : Bool :=
  bits / 2 ^ (format.exponentBits + format.fractionBits) % 2 == 1

def exponentField (bits : Nat) : Nat :=
  bits / 2 ^ format.fractionBits % 2 ^ format.exponentBits

def fractionField (bits : Nat) : Nat := bits % 2 ^ format.fractionBits

def isFinite (bits : Nat) : Bool :=
  format.exponentField bits != 2 ^ format.exponentBits - 1

def isZero (bits : Nat) : Bool :=
  format.exponentField bits == 0 && format.fractionField bits == 0

def absBits (bits : Nat) : Nat :=
  bits % 2 ^ (format.exponentBits + format.fractionBits)

def withSign (negative : Bool) (bits : Nat) : Nat :=
  format.absBits bits +
    if negative then 2 ^ (format.exponentBits + format.fractionBits) else 0

/-- The magnitude of a finite value as numerator and denominator. -/
def magnitude (bits : Nat) : Nat × Nat :=
  let exponent := format.exponentField bits
  let significand :=
    if exponent = 0 then format.fractionField bits
    else 2 ^ format.fractionBits + format.fractionField bits
  let unit : Int := max exponent 1 - (format.bias + format.fractionBits)
  (significand * 2 ^ unit.toNat, 2 ^ (-unit).toNat)

def infinity : Nat := (2 ^ format.exponentBits - 1) * 2 ^ format.fractionBits

/-- The bits of the value nearest to a non-negative fraction. A significand
that rounds up to the next power of two carries into the exponent field. -/
def ofFraction (numerator denominator : Nat) : Nat :=
  if numerator = 0 then 0
  else
    let exponent := max (floorLog 2 numerator denominator) (1 - format.bias)
    let significand :=
      roundScaled 2 numerator denominator (exponent - format.fractionBits)
    let biased := (exponent + format.bias).toNat
    min ((biased - 1) * 2 ^ format.fractionBits + significand) format.infinity

end Format

/-- Decimal exponent and `digits`-digit significand of a positive fraction. -/
def decimalDigits (digits numerator denominator : Nat) : Int × Nat :=
  let exponent := floorLog 10 numerator denominator
  let significand := roundScaled 10 numerator denominator (exponent - (digits - 1))
  if significand = 10 ^ digits then (exponent + 1, 10 ^ (digits - 1))
  else (exponent, significand)

/-- A decimal fraction without its trailing zeros, and without the point when
nothing is left behind it. -/
def trimFraction (whole fraction : List Char) : List Char :=
  match (fraction.reverse.dropWhile (· = '0')).reverse with
  | [] => whole
  | trimmed => whole ++ '.' :: trimmed

/-- Decimal exponents have at least two digits. -/
def exponentText (exponent : Int) : List Char :=
  let digits := Nat.toDigits 10 exponent.natAbs
  'e' :: (if exponent < 0 then '-' else '+') ::
    (if digits.length < 2 then '0' :: digits else digits)

/-- The `%.<digits>g` rendering of a non-negative fraction. -/
def generalText (digits numerator denominator : Nat) : List Char :=
  if numerator = 0 then ['0']
  else
    let (exponent, significand) := decimalDigits digits numerator denominator
    let text := Nat.toDigits 10 significand
    if exponent < -4 ∨ (digits : Int) ≤ exponent then
      trimFraction (text.take 1) (text.drop 1) ++ exponentText exponent
    else if exponent < 0 then
      trimFraction ['0'] (List.replicate (exponent.natAbs - 1) '0' ++ text)
    else
      trimFraction (text.take (exponent.toNat + 1)) (text.drop (exponent.toNat + 1))

end DanWs.BinaryFloat
