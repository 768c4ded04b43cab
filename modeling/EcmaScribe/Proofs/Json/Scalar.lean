/-
# EcmaScribe.Proofs.Json.Scalar -- scalars read back from their text

A text that is written for a scalar is read as that scalar, and the reader stops where
the text ends.

* Strings: `Json.readString_quoted`, by one lemma for the escape of one character.
* Numbers: which doubles are read back from their digits is a matter of rounding, so a
  number is taken to be read back from its own text (`JsonNumber.IsReadBack`).
  `Json.readScalar_number` says that it is then read back in front of every text that
  does not continue it (`Json.Ends`): each part of a number ends where it ended before.
  Integers of 64 bits are always read back (`JsonNumber.isReadBack_integer`).
-/
import EcmaScribe.Json.Reader
import EcmaScribe.Proofs.Number.Literal
import Mathlib.Data.List.TakeWhile

namespace EcmaScribe

set_option autoImplicit false

/-! ## Results taken apart -/

theorem exists_of_map_eq_ok {ε α β : Type} {result : Except ε α} {f : α → β} {value : β}
    (h : result.map f = .ok value) : ∃ first, result = .ok first ∧ f first = value := by
  cases result with
  | error => cases h
  | ok first => exact ⟨first, rfl, Except.ok.inj h⟩

theorem exists_of_bind_eq_ok {ε α β : Type} {result : Except ε α} {f : α → Except ε β}
    {value : β} (h : result >>= f = .ok value) :
    ∃ first, result = .ok first ∧ f first = .ok value := by
  cases result with
  | error => cases h
  | ok first => exact ⟨first, rfl, h⟩

namespace Json

/-! ## Strings -/

theorem hasFourBytes_cons (c₁ c₂ c₃ c₄ : Char) (rest : List Char) :
    hasFourBytes (c₁ :: c₂ :: c₃ :: c₄ :: rest) = true := by
  have h₁ := c₁.utf8Size_pos
  have h₂ := c₂.utf8Size_pos
  have h₃ := c₃.utf8Size_pos
  have h₄ := c₄.utf8Size_pos
  simp [hasFourBytes]
  omega

/-- A control is read from the two digits that differ from zero. -/
theorem readString_control {n : Nat} (small : n < 32) (done rest : List Char) :
    readString .plain done ('\\' :: 'u' :: Text.hexFixed .lower 4 n ++ rest) =
      readString .plain (Char.ofNat n :: done) rest := by
  have digits : Text.hexFixed .lower 4 n =
      ['0', '0', Text.hexDigit .lower (n / 16), Text.hexDigit .lower (n % 16)] := by
    have h₁ : n / 16 % 16 = n / 16 := by omega
    have h₂ : n / 16 / 16 = 0 := by omega
    simp [Text.hexFixed, h₁, h₂, Text.hexDigit]
  have high : Text.hexValue? (Text.hexDigit .lower (n / 16)) = some (n / 16) :=
    hexValue?_hexDigit .lower (by omega)
  have low : Text.hexValue? (Text.hexDigit .lower (n % 16)) = some (n % 16) :=
    hexValue?_hexDigit .lower (by omega)
  have zero : Text.hexValue? '0' = some 0 := rfl
  have value : 16 * (n / 16) + n % 16 = n := Nat.div_add_mod n 16
  have close : closeHex none n = .ok (.inl (Char.ofNat n)) := by
    have noLow : isLowSurrogate n = false := by simp [isLowSurrogate]; omega
    have noHigh : isHighSurrogate n = false := by simp [isHighSurrogate]; omega
    simp [closeHex, noLow, noHigh]
  simp [digits, readString, hasFourBytes_cons, zero, high, low, value, close]

theorem readString_escape (c : Char) (done rest : List Char) :
    readString .plain done (escape c ++ rest) = readString .plain (c :: done) rest := by
  unfold escape
  -- the seven escapes of two characters
  iterate 7
    split
    · subst_vars; rfl
  split
  · next control =>
      have read := readString_control control done rest
      rwa [Char.ofNat_toNat] at read
  · next quote backslash _ _ _ _ _ control =>
      simp [readString, quote, backslash, control]

/-- The characters of a quoted text are read up to its closing quote. -/
theorem readString_escaped (cs done rest : List Char) :
    readString .plain done (cs.flatMap escape ++ '\x22' :: rest) =
      .ok (String.ofList (done.reverse ++ cs), rest) := by
  induction cs generalizing done with
  | nil => simp [readString]
  | cons c cs ih =>
      rw [List.flatMap_cons, List.append_assoc, readString_escape, ih]
      simp

theorem readString_quoted (s : String) (rest : List Char) :
    readString .plain [] (s.toList.flatMap escape ++ '\x22' :: rest) = .ok (s, rest) := by
  rw [readString_escaped, List.reverse_nil, List.nil_append, String.ofList_toList]

/-! ## Numbers -/

/-- The text does not continue a number. -/
def Ends (rest : List Char) : Prop :=
  ∀ c ∈ rest.head?, isDigit c = false ∧ c ≠ '.' ∧ c ≠ 'e' ∧ c ≠ 'E'

theorem ends_nil : Ends [] := nofun

theorem Ends.cons {c : Char} (h : isDigit c = false ∧ c ≠ '.' ∧ c ≠ 'e' ∧ c ≠ 'E')
    (rest : List Char) : Ends (c :: rest) := by
  simpa [Ends] using h

variable {cs rest : List Char}

theorem takeWhile_digits_append (ends : Ends rest) :
    (cs ++ rest).takeWhile isDigit = cs.takeWhile isDigit := by
  have none : rest.takeWhile isDigit = [] := by
    cases rest with
    | nil => rfl
    | cons c rest => rw [List.takeWhile_cons_of_neg (by simp [(ends c rfl).1])]
  rw [List.takeWhile_append]
  split
  · next all =>
      rw [none, List.append_nil]
      exact ((List.takeWhile_prefix isDigit).eq_of_length all).symm
  · rfl

theorem dropWhile_digits_append (ends : Ends rest) :
    (cs ++ rest).dropWhile isDigit = cs.dropWhile isDigit ++ rest := by
  have all : rest.dropWhile isDigit = rest := by
    cases rest with
    | nil => rfl
    | cons c rest => rw [List.dropWhile_cons_of_neg (by simp [(ends c rfl).1])]
  rw [List.dropWhile_append]
  split
  · next none => rw [all, List.isEmpty_iff.1 none, List.nil_append]
  · rfl

theorem readDigits_append (ends : Ends rest) {digits tail : List Char}
    (h : readDigits cs = .ok (digits, tail)) :
    readDigits (cs ++ rest) = .ok (digits, tail ++ rest) := by
  cases cs with
  | nil => cases h
  | cons c cs =>
      unfold readDigits at h ⊢
      dsimp only [List.cons_append] at h ⊢
      split at h
      · next digit =>
          cases h
          rw [if_pos digit, ← List.cons_append, takeWhile_digits_append ends,
            dropWhile_digits_append ends]
      · cases h

theorem readWhole_append (ends : Ends rest) {whole tail : List Char}
    (h : readWhole cs = .ok (whole, tail)) :
    readWhole (cs ++ rest) = .ok (whole, tail ++ rest) := by
  obtain ⟨⟨digits, tail'⟩, hdigits, h⟩ := exists_of_bind_eq_ok h
  unfold readWhole
  rw [readDigits_append ends hdigits]
  dsimp only at h
  show (if digits.head? = some '0' ∧ 1 < digits.length then _ else _) = _
  split at h
  · cases h
  · next plain =>
      cases h
      rw [if_neg plain]

theorem readFraction_append (ends : Ends rest) {fraction : Option (List Char)} {tail : List Char}
    (h : readFraction cs = .ok (fraction, tail)) :
    readFraction (cs ++ rest) = .ok (fraction, tail ++ rest) := by
  unfold readFraction at h
  split at h
  · obtain ⟨⟨digits, tail'⟩, hdigits, h⟩ := exists_of_map_eq_ok h
    cases h
    simp [readFraction, readDigits_append ends hdigits, Except.map]
  · next noPoint =>
      cases h
      have noPoint' : ∀ after, cs ++ rest ≠ '.' :: after := fun after heq => by
        cases cs with
        | nil => exact (ends '.' (by simp [show rest = '.' :: after from heq])).2.1 rfl
        | cons c cs => exact noPoint cs (congrArg (· :: cs) (List.head_eq_of_cons_eq heq))
      unfold readFraction
      split
      · next heq => exact absurd heq (noPoint' _)
      · rfl

/-- The sign of an exponent, and what follows it. -/
def splitSign : List Char → Bool × List Char
  | '+' :: cs => (false, cs)
  | '-' :: cs => (true, cs)
  | cs => (false, cs)

theorem splitSign_append (c : Char) (cs rest : List Char) :
    splitSign (c :: cs ++ rest) = ((splitSign (c :: cs)).1, (splitSign (c :: cs)).2 ++ rest) := by
  by_cases plus : c = '+'
  · subst plus; rfl
  · by_cases minus : c = '-'
    · subst minus; rfl
    · simp [splitSign, plus, minus]

theorem readExponent_of_mark {e : Char} (mark : e = 'e' ∨ e = 'E') (cs : List Char) :
    readExponent (e :: cs) = (readDigits (splitSign cs).2).map fun (digits, rest) =>
      let size := digitsValue digits
      (some (if (splitSign cs).1 then -(size : Int) else size), rest) := by
  cases cs with
  | nil => simp [readExponent, splitSign, mark]
  | cons c cs =>
      by_cases plus : c = '+'
      · simp [readExponent, splitSign, mark, plus]
      · by_cases minus : c = '-'
        · simp [readExponent, splitSign, mark, minus]
        · simp [readExponent, splitSign, mark, plus, minus]

theorem readExponent_append (ends : Ends rest) {exponent : Option Int} {tail : List Char}
    (h : readExponent cs = .ok (exponent, tail)) :
    readExponent (cs ++ rest) = .ok (exponent, tail ++ rest) := by
  cases cs with
  | nil =>
      cases h
      cases rest with
      | nil => rfl
      | cons c rest => simp [readExponent, (ends c rfl).2.2.1, (ends c rfl).2.2.2]
  | cons e cs =>
      by_cases mark : e = 'e' ∨ e = 'E'
      · rw [readExponent_of_mark mark] at h
        obtain ⟨⟨digits, tail'⟩, hdigits, h⟩ := exists_of_map_eq_ok h
        cases h
        cases cs with
        | nil => cases hdigits
        | cons c cs =>
            rw [List.cons_append, readExponent_of_mark mark, splitSign_append,
              readDigits_append ends hdigits]
            rfl
      · unfold readExponent at h ⊢
        dsimp only [List.cons_append] at h ⊢
        rw [if_neg mark] at h ⊢
        cases h
        rfl

/-- A magnitude that ends its text is read in front of every text that does not continue it. -/
theorem readMagnitude_append (ends : Ends rest) {negative : Bool} {value : Json}
    (h : readMagnitude negative cs = .ok (value, [])) :
    readMagnitude negative (cs ++ rest) = .ok (value, rest) := by
  obtain ⟨⟨whole, afterWhole⟩, hwhole, h⟩ := exists_of_bind_eq_ok h
  obtain ⟨⟨fraction, afterFraction⟩, hfraction, h⟩ := exists_of_bind_eq_ok h
  obtain ⟨⟨exponent, afterExponent⟩, hexponent, h⟩ := exists_of_bind_eq_ok h
  obtain ⟨number, hnumber, h⟩ := exists_of_bind_eq_ok h
  cases h
  simp only [readMagnitude, bind, Except.bind, readWhole_append ends hwhole,
    readFraction_append ends hfraction, readExponent_append ends hexponent, hnumber,
    List.nil_append]

/-! ## Scalars -/

theorem readWord_eq {value read : Json} {tail : List Char} :
    (word cs : List Char) → readWord value word cs = .ok (read, tail) → value = read
  | [], _, h => (Prod.mk.inj (Except.ok.inj h)).1
  | _ :: _, [], h => nomatch h
  | expected :: word, c :: cs, h => by
      unfold readWord at h
      split at h
      · exact readWord_eq word cs h
      · cases h

/-- A scalar is a word or a text, or a number with or without a sign. -/
theorem readScalar_cases {c : Char} {json : Json} {tail : List Char}
    (h : readScalar (c :: cs) = .ok (json, tail)) :
    (json.depth = 0 ∧ ∀ value, json ≠ .number value) ∨
      (c = '-' ∧ readMagnitude true cs = .ok (json, tail)) ∨
        (isDigit c = true ∧ readMagnitude false (c :: cs) = .ok (json, tail)) := by
  unfold readScalar at h
  dsimp only at h
  -- the three words
  iterate 3
    split at h
    · rw [← readWord_eq _ _ h]
      exact .inl ⟨rfl, nofun⟩
  split at h
  · obtain ⟨_, _, h⟩ := exists_of_map_eq_ok h
    cases h
    exact .inl ⟨rfl, nofun⟩
  split at h
  · next minus => exact .inr (.inl ⟨minus, h⟩)
  split at h
  · next digit => exact .inr (.inr ⟨digit, h⟩)
  · cases h

theorem ne_of_isDigit {c d : Char} (digit : isDigit c = true) (other : isDigit d = false) :
    c ≠ d := fun heq => by
  rw [heq, other] at digit
  cases digit

theorem readScalar_of_digit {c : Char} (digit : isDigit c = true) (cs : List Char) :
    readScalar (c :: cs) = readMagnitude false (c :: cs) := by
  have other {d : Char} : isDigit d = false → c ≠ d := ne_of_isDigit digit
  unfold readScalar
  dsimp only
  rw [if_neg (other rfl), if_neg (other rfl), if_neg (other rfl), if_neg (other rfl),
    if_neg (other rfl), if_pos digit]

/-- A text that is a number starts with its sign or a digit, and is read as the number in
front of every text that does not continue it. -/
theorem readScalar_number {value : JsonNumber} (h : readScalar cs = .ok (.number value, [])) :
    (∃ c tail, cs = c :: tail ∧ (c = '-' ∨ isDigit c = true)) ∧
      ∀ rest, Ends rest → readScalar (cs ++ rest) = .ok (.number value, rest) := by
  cases cs with
  | nil => cases h
  | cons c cs =>
      obtain ⟨-, noNumber⟩ | ⟨rfl, read⟩ | ⟨digit, read⟩ := readScalar_cases h
      · exact absurd rfl (noNumber value)
      · exact ⟨⟨_, cs, rfl, .inl rfl⟩, fun rest ends => readMagnitude_append ends read⟩
      · refine ⟨⟨c, cs, rfl, .inr digit⟩, fun rest ends => ?_⟩
        rw [List.cons_append, readScalar_of_digit digit, ← List.cons_append]
        exact readMagnitude_append ends read

end Json

/-- A number that its own text is read as. -/
def JsonNumber.IsReadBack (number : JsonNumber) : Prop :=
  Json.readScalar number.text = .ok (.number number, [])

/-! ## Integers -/

theorem le_ofDigitChars (digits : List Char) (n : Nat) : n ≤ Nat.ofDigitChars 10 digits n := by
  induction digits generalizing n with
  | nil => exact Nat.le_refl n
  | cons c digits ih =>
      rw [Nat.ofDigitChars_cons]
      exact Nat.le_trans (by omega) (ih _)

namespace Json

theorem absorb_of_lt (digits : List Char) (n : Nat)
    (fits : Nat.ofDigitChars 10 digits n < UInt64.size) :
    absorb n digits = (Nat.ofDigitChars 10 digits n, []) := by
  induction digits generalizing n with
  | nil => rfl
  | cons c digits ih =>
      rw [Nat.ofDigitChars_cons] at fits ⊢
      have next : 10 * n + (c.toNat - 48) < UInt64.size :=
        Nat.lt_of_le_of_lt (le_ofDigitChars digits _) fits
      unfold absorb
      dsimp only
      rw [if_pos next]
      exact ih _ fits

theorem isDigit_of_mem_toDigits {n : Nat} {c : Char} (h : c ∈ Nat.toDigits 10 n) :
    isDigit c = true := by
  have digit := isDigits_toDigits n c h
  simpa [isDigit, Char.isDigit, Char.le_def] using digit

theorem readWhole_toDigits (n : Nat) :
    readWhole (Nat.toDigits 10 n) = .ok (Nat.toDigits 10 n, []) := by
  have all : ∀ c ∈ Nat.toDigits 10 n, isDigit c = true := fun _ => isDigit_of_mem_toDigits
  have digits : readDigits (Nat.toDigits 10 n) = .ok (Nat.toDigits 10 n, []) := by
    cases h : Nat.toDigits 10 n with
    | nil => exact absurd h Nat.toDigits_ne_nil
    | cons c cs =>
        rw [h] at all
        unfold readDigits
        dsimp only
        rw [if_pos (all c List.mem_cons_self), List.takeWhile_eq_self_iff.2 all,
          List.dropWhile_eq_nil_iff.2 all]
  have noZero : ¬ ((Nat.toDigits 10 n).head? = some '0' ∧ 1 < (Nat.toDigits 10 n).length) := by
    rintro ⟨zero, long⟩
    rcases Nat.eq_zero_or_pos n with rfl | positive
    · exact absurd long (by decide)
    · exact head?_toDigits_ne positive zero
  simp only [readWhole, digits, bind, Except.bind, if_neg noZero]

/-- The digits of a number of 64 bits are read as an integer of that size. -/
theorem readMagnitude_toDigits (negative : Bool) {n : Nat} (fits : n < UInt64.size) :
    readMagnitude negative (Nat.toDigits 10 n) =
      .ok (.number (if !negative then .integer n
        else if n = 0 ∨ UInt64.size / 2 < n then .float (Double.ofNat n).neg
        else .integer (-(n : Int))), []) := by
  have value : Nat.ofDigitChars 10 (Nat.toDigits 10 n) 0 = n :=
    Nat.ofDigitChars_toDigits (by decide) (by decide)
  have absorbed := absorb_of_lt (Nat.toDigits 10 n) 0 (value.symm ▸ fits)
  rw [value] at absorbed
  simp only [readMagnitude, bind, Except.bind, readWhole_toDigits, readFraction, readExponent,
    assembleNumber, absorbed]
  cases negative with
  | false => rfl
  | true =>
      by_cases large : n = 0 ∨ UInt64.size / 2 < n
      · simp [large]
      · simp [large]

end Json

/-- An integer of 64 bits, with or without a sign, is read back. -/
theorem JsonNumber.isReadBack_integer {value : Int} (low : -(UInt64.size / 2 : Nat) ≤ value)
    (high : value < UInt64.size) : (JsonNumber.integer value).IsReadBack := by
  have fits : value.natAbs < UInt64.size := by omega
  show Json.readScalar ((if value < 0 then ['-'] else []) ++ Nat.toDigits 10 value.natAbs) = _
  by_cases negative : value < 0
  · have small : ¬ (value.natAbs = 0 ∨ UInt64.size / 2 < value.natAbs) := by
      have : UInt64.size = 2 ^ 64 := rfl
      omega
    have back : -(value.natAbs : Int) = value := by omega
    rw [if_pos negative]
    show Json.readMagnitude true (Nat.toDigits 10 value.natAbs) = _
    rw [Json.readMagnitude_toDigits true fits]
    rw [Bool.not_true, if_neg Bool.false_ne_true, if_neg small, back]
  · have back : (value.natAbs : Int) = value := by omega
    have read := Json.readMagnitude_toDigits false fits
    rw [if_neg negative, List.nil_append]
    cases h : Nat.toDigits 10 value.natAbs with
    | nil => exact absurd h Nat.toDigits_ne_nil
    | cons c cs =>
        rw [Json.readScalar_of_digit (Json.isDigit_of_mem_toDigits (h ▸ List.mem_cons_self)),
          ← h, read]
        simp [back]

end EcmaScribe
