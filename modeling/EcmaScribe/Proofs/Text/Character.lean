/-
# EcmaScribe.Proofs.Text.Character -- deciding about characters

What holds of the ten digits or of the ASCII characters is checked one character at a time, and
so is what holds of the characters of a fixed text.
-/
import EcmaScribe.Text.Hexadecimal
import EcmaScribe.Text.Identifier

namespace EcmaScribe

set_option autoImplicit false

open Text

/-- A property of the characters of a text is decided along the text, not by going through all
characters there are. -/
instance decidableForallMemText {P : Char → Prop} [DecidablePred P] (text : List Char) :
    Decidable (∀ c ∈ text, P c) := List.decidableBAll P text

/-- What holds of the ten digits holds of a digit. -/
theorem forall_digit {P : Char → Prop} (table : ∀ n < 10, P (Char.ofNat (48 + n))) {c : Char}
    (digit : c.isDigit = true) : P c := by
  simp only [Char.isDigit, Bool.and_eq_true, decide_eq_true_eq, UInt32.le_iff_toNat_le] at digit
  have low : 48 ≤ c.toNat := digit.1
  have high : c.toNat ≤ 57 := digit.2
  have place := table (c.toNat - 48) (by omega)
  rwa [Nat.add_sub_cancel' low, Char.ofNat_toNat] at place

/-- What holds of the first 128 characters holds of an ASCII character. -/
theorem forall_ascii {P : Char → Prop} (table : ∀ n < 128, P (Char.ofNat n)) {c : Char}
    (ascii : isAscii c = true) : P c := by
  have place := table c.toNat (by simpa [isAscii] using ascii)
  rwa [Char.ofNat_toNat] at place

/-- A hexadecimal digit tells its value, in either case. -/
theorem hexValue?_hexDigit (letters : LetterCase) {value : Nat} (small : value < 16) :
    hexValue? (hexDigit letters value) = some value := by
  have table : ∀ value < 16, hexValue? (hexDigit letters value) = some value := by
    cases letters <;> decide
  exact table value small

end EcmaScribe
