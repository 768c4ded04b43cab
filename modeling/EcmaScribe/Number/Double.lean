/-
# EcmaScribe.Number.Double -- binary64 numbers and their exact values

A number of the tree is an IEEE 754 double, kept as its 64 bits so that equality
of numbers is equality of bits and the two zeros stay apart.  A finite double
denotes `significand * 2 ^ exponent` up to sign; every computation on numbers
goes through that exact value, in natural-number arithmetic.

`nearest` turns a ratio of naturals into the double closest to it, ties to the
even significand, and a ratio beyond the largest double into infinity.  The
bits of a positive double grow with its value, so one addition places both the
subnormal range and a significand that rounds up to the next power of two.
-/

namespace EcmaScribe

set_option autoImplicit false

structure Double where
  bits : UInt64
  deriving DecidableEq, Repr

namespace Double

/-! ## Reading the bits -/

/-- The weight of the sign among the 64 bits. -/
def signBit : Nat := 0x8000000000000000

/-- The weight of the exponent among the 64 bits, which is also the leading bit of a
normal significand. -/
def unitBit : Nat := 0x10000000000000

def isNegative (d : Double) : Bool := decide (signBit ≤ d.bits.toNat)

def biasedExponent (d : Double) : Nat := d.bits.toNat / unitBit % 2048

def fraction (d : Double) : Nat := d.bits.toNat % unitBit

def isNaN (d : Double) : Bool := d.biasedExponent == 2047 && d.fraction != 0

def isInfinite (d : Double) : Bool := d.biasedExponent == 2047 && d.fraction == 0

def isFinite (d : Double) : Bool := d.biasedExponent != 2047

def isZero (d : Double) : Bool := d.biasedExponent == 0 && d.fraction == 0

/-- The integer `m` of the magnitude `m * 2 ^ q`. -/
def significand (d : Double) : Nat :=
  if d.biasedExponent = 0 then d.fraction else unitBit + d.fraction

/-- The integer `q` of the magnitude `m * 2 ^ q`. -/
def exponent (d : Double) : Int := (max d.biasedExponent 1 : Nat) - 1075

/-- Powers of two below one go to the denominator. -/
def scaled (m : Nat) (q : Int) : Nat × Nat := (m <<< q.toNat, 1 <<< (-q).toNat)

/-- The magnitude of a finite double as numerator and denominator. -/
def ratio (d : Double) : Nat × Nat := scaled d.significand d.exponent

/-! ## Building doubles -/

/-- The double with the given sign whose other 63 bits are `magnitude`. -/
def ofMagnitude (negative : Bool) (magnitude : Nat) : Double :=
  ⟨UInt64.ofNat (magnitude + if negative then signBit else 0)⟩

def infinityMagnitude : Nat := 2047 * unitBit

def zero (negative : Bool) : Double := ofMagnitude negative 0

def infinity (negative : Bool) : Double := ofMagnitude negative infinityMagnitude

/-- The quotient rounded to the nearest integer, a tie to the even one. -/
def roundHalfEven (num den : Nat) : Nat :=
  let quotient := num / den
  let twice := 2 * (num % den)
  if den < twice ∨ (den = twice ∧ quotient % 2 = 1) then quotient + 1 else quotient

/-- The exponent of the largest power of two that is at most `num / den`. -/
def binaryOrder (num den : Nat) : Int :=
  let guess : Int := (num.log2 : Int) - den.log2
  if num <<< (-guess).toNat < den <<< guess.toNat then guess - 1 else guess

/-- The double nearest to `num / den`. -/
def nearest (negative : Bool) (num den : Nat) : Double :=
  if num = 0 then zero negative
  else
    let q := max (binaryOrder num den - 52) (-1074)
    let m := roundHalfEven (num <<< (-q).toNat) (den <<< q.toNat)
    ofMagnitude negative (min ((q + 1074).toNat * unitBit + m) infinityMagnitude)

/-- The nearest double to a natural number. -/
def ofNat (n : Nat) : Double := nearest false n 1

def powerOfTen (n : Nat) : Nat := Nat.pow 10 n

/-- The nearest double to `10 ^ n`. -/
def tenTo (n : Nat) : Double := ofNat (powerOfTen n)

/-- One correctly rounded multiplication of two finite magnitudes. -/
def mul (a b : Double) : Double :=
  nearest (a.isNegative != b.isNegative) (a.ratio.1 * b.ratio.1) (a.ratio.2 * b.ratio.2)

/-- One correctly rounded division of two finite magnitudes, the divisor not zero. -/
def div (a b : Double) : Double :=
  nearest (a.isNegative != b.isNegative) (a.ratio.1 * b.ratio.2) (a.ratio.2 * b.ratio.1)

def neg (d : Double) : Double := ⟨d.bits ^^^ UInt64.ofNat signBit⟩

/-- The nearest double to `digits * 10 ^ power`.

A nonzero integer times `10 ^ 310` is past the largest double, and a decimal
whose first digit stands below `10 ^ -330` is nearer to zero than to any other
double, so powers beyond those bounds are never formed. -/
def ofDecimal (digits : Nat) (power : Int) : Double :=
  if digits = 0 then zero false
  else if 310 < power then infinity false
  else if (Nat.toDigits 10 digits).length + power < -330 then zero false
  else nearest false (digits * powerOfTen power.toNat) (powerOfTen (-power).toNat)

end Double

end EcmaScribe
