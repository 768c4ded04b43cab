/-
# EcmaScribe.Number.Numeral -- numbers as text

Two formats write the same digits.

* A script literal (`Double.literal`): decimal notation when the first digit
  stands between `10 ^ -6` and `10 ^ 20`, otherwise an exponent with an explicit
  sign.  The compact form drops the zero before a leading point and takes the
  exponent form whenever that is shorter.  Infinity has no literal and is written
  as a number too large to be finite.
* Interchange text (`Double.interchange`): decimal notation when the first digit
  stands between `10 ^ -5` and `10 ^ 15`, always with a point, otherwise an
  exponent with an explicit sign.
-/
import EcmaScribe.Number.Shortest

namespace EcmaScribe

set_option autoImplicit false

namespace Decimal

def zeros (n : Nat) : List Char := List.replicate n '0'

/-- Decimal notation, without a point when the value is an integer. -/
def plain (d : Decimal) : List Char :=
  if d.exponent < 0 then
    '0' :: '.' :: zeros (-d.exponent - 1).toNat ++ d.digits
  else
    let whole := d.exponent.toNat + 1
    if d.digits.length ≤ whole then d.digits ++ zeros (whole - d.digits.length)
    else d.digits.take whole ++ '.' :: d.digits.drop whole

/-- The digits with a point after the first, if there is a second. -/
def mantissa (d : Decimal) : List Char :=
  match d.digits with
  | first :: second :: rest => first :: '.' :: second :: rest
  | short => short

/-- Exponent notation; a nonnegative exponent is preceded by `plus`. -/
def scientific (plus : List Char) (d : Decimal) : List Char :=
  d.mantissa ++ 'e' ::
    (if d.exponent < 0 then ['-'] else plus) ++ Nat.toDigits 10 d.exponent.natAbs

/-- Drop the zero before a leading point. -/
def withoutLeadingZero : List Char → List Char
  | '0' :: '.' :: rest => '.' :: rest
  | text => text

/-- The literal for people: the notation follows the size of the number. -/
def readable (d : Decimal) : List Char :=
  if -6 ≤ d.exponent ∧ d.exponent ≤ 20 then d.plain else d.scientific ['+']

/-- The literal for machines: the shorter notation, decimal when both are as long. -/
def brief (d : Decimal) : List Char :=
  let decimal := withoutLeadingZero d.plain
  let exponential := d.scientific []
  if exponential.length < decimal.length then exponential else decimal

/-- Interchange notation; a number is always told from an integer. -/
def interchange (d : Decimal) : List Char :=
  if -5 ≤ d.exponent ∧ d.exponent ≤ 15 then
    if d.digits.length ≤ d.exponent.toNat + 1 ∧ 0 ≤ d.exponent then d.plain ++ ['.', '0'] else d.plain
  else d.scientific ['+']

end Decimal

namespace Double

def sign (d : Double) : List Char := if d.isNegative then ['-'] else []

/-- The script literal of a number, for compact or for readable output. -/
def literal (compact : Bool) (d : Double) : List Char :=
  if d.isNaN then ['N', 'a', 'N']
  else if d.isInfinite then d.sign ++ ['2', 'e', '3', '0', '8']
  else if d.isZero then ['0']
  else d.sign ++
    if compact then (d.shortest .upward).brief else (d.shortest .upward).readable

/-- The interchange text of a number; what is not finite has none and is null. -/
def interchange (d : Double) : List Char :=
  if !d.isFinite then ['n', 'u', 'l', 'l']
  else if d.isZero then d.sign ++ ['0', '.', '0']
  else d.sign ++ (d.shortest .toEven).interchange

end Double

end EcmaScribe
