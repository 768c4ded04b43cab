/-
# EcmaScribe.Text.Hexadecimal -- digits in base sixteen

Escapes write code points and code units in base sixteen: a fixed number of
digits (`fixed`) or as many as the number needs (`Nat.toDigits`).
-/

namespace EcmaScribe

set_option autoImplicit false

namespace Text

inductive LetterCase
  | lower
  | upper
  deriving DecidableEq, Repr

/-- The digit of a value below sixteen. -/
def hexDigit (letters : LetterCase) (value : Nat) : Char :=
  if value < 10 then Char.ofNat (48 + value)
  else match letters with
    | .lower => Char.ofNat (87 + value)
    | .upper => Char.ofNat (55 + value)

/-- The last `width` digits of `n`, the most significant first. -/
def hexFixed (letters : LetterCase) : Nat → Nat → List Char
  | 0, _ => []
  | width + 1, n => hexFixed letters width (n / 16) ++ [hexDigit letters (n % 16)]

/-- The digits of a number, as many as it needs. -/
def hexShort (letters : LetterCase) (n : Nat) : List Char :=
  hexFixed letters (n.log2 / 4 + 1) n

/-- The value of a digit in either case. -/
def hexValue? (c : Char) : Option Nat :=
  if '0' ≤ c ∧ c ≤ '9' then some (c.toNat - 48)
  else if 'a' ≤ c ∧ c ≤ 'f' then some (c.toNat - 87)
  else if 'A' ≤ c ∧ c ≤ 'F' then some (c.toNat - 55)
  else none

end Text

end EcmaScribe
