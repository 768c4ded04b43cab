/-
# EcmaScribe.Proofs.Text.NameReading -- names read back from a script

A reader of a script takes an escape inside a name, `\u` with four digits or with digits in
braces, for one code point, and allows no surrogate there.  `readName` is that reader.

An escaped name reads back as itself if no character of it was escaped as two units: each of
the units is a surrogate, and the reader refuses the name (`readName_escaped`).
-/
import EcmaScribe.Proofs.Lexical.Spelled
import EcmaScribe.Proofs.Text.NameEscape
import Mathlib.Algebra.Group.Nat.Defs

namespace EcmaScribe.Text

set_option autoImplicit false

open Lexical

/-! ## Numbers in base sixteen -/

/-- The number that digits spell. -/
def hexNumber (digits : List Char) : Nat :=
  digits.foldl (fun n c => 16 * n + (hexValue? c).getD 0) 0

/-- One more digit. -/
theorem hexNumber_concat (digits : List Char) (c : Char) :
    hexNumber (digits ++ [c]) = 16 * hexNumber digits + (hexValue? c).getD 0 := by
  simp [hexNumber, List.foldl_append]

/-- Digits of a fixed number of places tell the number up to its higher places. -/
theorem hexNumber_hexFixed (width n : Nat) :
    hexNumber (hexFixed .upper width n) = n % 16 ^ width := by
  induction width generalizing n with
  | zero => simp [hexFixed, hexNumber, Nat.mod_one]
  | succ width ih =>
      have last := hexValue?_hexDigit .upper (Nat.mod_lt n (by decide : 0 < 16))
      rw [hexFixed, hexNumber_concat, ih, last, Option.getD_some, Nat.pow_succ', Nat.mod_mul,
        Nat.add_comm]

/-- As many digits as a number needs tell the number. -/
theorem hexNumber_hexShort (n : Nat) : hexNumber (hexShort .upper n) = n := by
  have enough : n < 16 ^ (n.log2 / 4 + 1) := by
    calc n < 2 ^ (n.log2 + 1) := Nat.lt_log2_self
      _ ≤ 2 ^ (4 * (n.log2 / 4 + 1)) := Nat.pow_le_pow_right (by decide) (by omega)
      _ = 16 ^ (n.log2 / 4 + 1) := by rw [Nat.pow_mul]
  rw [hexShort, hexNumber_hexFixed, Nat.mod_eq_of_lt enough]

theorem length_hexFixed (width n : Nat) : (hexFixed .upper width n).length = width := by
  induction width generalizing n with
  | zero => rfl
  | succ width ih => simp [hexFixed, ih]

theorem all_isHexDigit_hexFixed (width n : Nat) :
    ∀ c ∈ hexFixed .upper width n, isHexDigit c = true :=
  forall_mem_hexDigit (P := fun c => isHexDigit c = true) (by decide) width n

/-! ## The reader -/

/-- The character of a code point, if that is no surrogate and not too large. -/
def codePoint? (n : Nat) : Option Char := if n.isValidChar then some (Char.ofNat n) else none

/-- The character of an escape whose `\u` has been read, and the text after it. -/
def readEscape : List Char → Option (Char × List Char)
  | '\x7b' :: text =>
      let digits := text.takeWhile isHexDigit
      match text.dropWhile isHexDigit with
      | '\x7d' :: rest =>
          if digits.isEmpty then none else (codePoint? (hexNumber digits)).map (·, rest)
      | _ => none
  | text =>
      let digits := text.take 4
      if digits.length = 4 ∧ digits.all isHexDigit then
        (codePoint? (hexNumber digits)).map (·, text.drop 4)
      else none

theorem length_lt_of_readEscape {text rest : List Char} {c : Char}
    (h : readEscape text = some (c, rest)) : rest.length < text.length := by
  unfold readEscape at h
  split at h
  · rename_i text
    have shorter := (List.dropWhile_suffix (l := text) isHexDigit).length_le
    dsimp only at h
    split at h
    · rename_i after closed
      split at h
      · cases h
      · obtain ⟨_, _, same⟩ := Option.map_eq_some_iff.1 h
        obtain rfl : after = rest := congrArg Prod.snd same
        rw [closed, List.length_cons] at shorter
        rw [List.length_cons]
        omega
    · cases h
  · dsimp only at h
    split at h
    · rename_i digits
      obtain ⟨_, _, same⟩ := Option.map_eq_some_iff.1 h
      obtain rfl : text.drop 4 = rest := congrArg Prod.snd same
      have four := digits.1
      rw [List.length_take] at four
      rw [List.length_drop]
      omega
    · cases h

/-- The name that a word of a script spells. -/
def readName : List Char → Option (List Char)
  | [] => some []
  | '\\' :: 'u' :: text =>
      match _h : readEscape text with
      | some (c, rest) => (readName rest).map (c :: ·)
      | none => none
  | '\\' :: _ => none
  | c :: rest => (readName rest).map (c :: ·)
termination_by text => text.length
decreasing_by
  · have := length_lt_of_readEscape _h
    simp only [List.length_cons]
    omega
  · simp

theorem readName_char {c : Char} (noBackslash : c ≠ '\\') (rest : List Char) :
    readName (c :: rest) = (readName rest).map (c :: ·) := by
  rw [readName]
  · exact fun _ same => absurd same noBackslash
  · exact noBackslash

theorem readName_escape {text rest : List Char} {c : Char} (h : readEscape text = some (c, rest)) :
    readName ('\\' :: 'u' :: text) = (readName rest).map (c :: ·) := by
  rw [readName]
  split
  · rename_i d after read
    obtain ⟨rfl, rfl⟩ : c = d ∧ rest = after := by simpa [h] using read
    rfl
  · rename_i unread
    rw [h] at unread
    cases unread

theorem readName_of_no_escape {text : List Char} (h : readEscape text = none) :
    readName ('\\' :: 'u' :: text) = none := by
  rw [readName]
  split
  · rename_i read
    rw [h] at read
    cases read
  · rfl

/-! ## Escaped names -/

theorem codePoint?_toNat (c : Char) : codePoint? c.toNat = some c := by
  have valid : c.toNat.isValidChar := c.valid
  rw [codePoint?, if_pos valid, Char.ofNat_toNat]

/-- Four digits. -/
theorem readEscape_hexFixed (n : Nat) (rest : List Char) :
    readEscape (hexFixed .upper 4 n ++ rest) = (codePoint? (n % 16 ^ 4)).map (·, rest) := by
  have four := length_hexFixed 4 n
  have digits := all_isHexDigit_hexFixed 4 n
  have number := hexNumber_hexFixed 4 n
  generalize hexFixed .upper 4 n = text at four digits number
  unfold readEscape
  split
  · rename_i inner brace
    -- a digit is no brace
    obtain ⟨c, more, rfl⟩ := List.exists_cons_of_ne_nil (List.ne_nil_of_length_eq_add_one four)
    obtain ⟨rfl, -⟩ := List.cons.inj brace
    exact absurd (digits '\x7b' (by simp)) (by decide)
  · have front : (text ++ rest).take 4 = text := by rw [← four, List.take_left]
    have back : (text ++ rest).drop 4 = rest := by rw [← four, List.drop_left]
    rw [front, back, if_pos ⟨four, List.all_eq_true.2 digits⟩, number]

/-- Digits in braces. -/
theorem readEscape_braced (n : Nat) (rest : List Char) :
    readEscape ('\x7b' :: (hexShort .upper n ++ '\x7d' :: rest)) =
      (codePoint? n).map (·, rest) := by
  have digits : ∀ c ∈ hexShort .upper n, isHexDigit c = true := all_isHexDigit_hexFixed _ n
  have nonempty : (hexShort .upper n).isEmpty = false := by simp [hexShort, hexFixed]
  have stops : isHexDigit '\x7d' = false := rfl
  have front : (hexShort .upper n ++ '\x7d' :: rest).takeWhile isHexDigit = hexShort .upper n := by
    rw [List.takeWhile_append_of_pos digits, List.takeWhile_cons_of_neg (by simp [stops]),
      List.append_nil]
  have back : (hexShort .upper n ++ '\x7d' :: rest).dropWhile isHexDigit = '\x7d' :: rest := by
    rw [List.dropWhile_append_of_pos digits, List.dropWhile_cons_of_neg (by simp [stops])]
  simp only [readEscape, front, back, nonempty, hexNumber_hexShort, Bool.false_eq_true, if_false]

/-- The first unit of a character beyond U+FFFF is a surrogate. -/
theorem codePoint?_surrogate {n : Nat} (high : 0xD800 ≤ n) (low : n ≤ 0xDFFF) :
    codePoint? n = none := by
  refine if_neg ?_
  rintro (below | above) <;> omega

/-- Whether the escape of a character denotes it. -/
def isReadable (braced : Bool) (c : Char) : Bool := braced || !isAstral c

/-- A character reads back if it was not escaped as two units. -/
theorem readName_nameChar {c : Char} (noBackslash : c ≠ '\\') (braced : Bool) (rest : List Char) :
    readName (nameChar braced c ++ rest) =
      if isReadable braced c then (readName rest).map (c :: ·) else none := by
  have small : c.toNat < 0x110000 := by
    rcases c.valid with below | above
    · exact Nat.lt_trans below (by decide)
    · exact above.2
  unfold nameChar
  by_cases ascii : isAscii c = true
  · have low : isAstral c = false := by
      simp only [isAscii, decide_eq_true_eq] at ascii
      simp only [isAstral, decide_eq_false_iff_not]
      omega
    rw [if_pos ascii, if_pos (by simp [isReadable, low])]
    exact readName_char noBackslash rest
  rw [if_neg ascii]
  by_cases escaped : (braced && isAstral c) = true
  · obtain ⟨inBraces, -⟩ : braced = true ∧ isAstral c = true := by simpa using escaped
    rw [if_pos escaped, if_pos (by simp [isReadable, inBraces])]
    refine readName_escape ?_
    have read := readEscape_braced c.toNat rest
    rw [codePoint?_toNat] at read
    simpa using read
  rw [if_neg escaped, escapeUnits, utf16Units]
  by_cases single : c.toNat < 0x10000
  · have low : isAstral c = false := by
      simp only [isAstral, decide_eq_false_iff_not]
      omega
    have read := readEscape_hexFixed c.toNat rest
    rw [Nat.mod_eq_of_lt (by simpa using single), codePoint?_toNat] at read
    rw [if_pos single, if_pos (by simp [isReadable, low]), List.flatMap_singleton]
    exact readName_escape read
  · have astral : isAstral c = true := by
      simp only [isAstral, decide_eq_true_eq]
      omega
    obtain rfl : braced = false := by simpa [astral] using escaped
    rw [if_neg single, if_neg (by simp [isReadable, astral]), List.flatMap_cons, List.append_assoc]
    have surrogate : codePoint? ((0xD800 + (c.toNat - 0x10000) / 0x400) % 16 ^ 4) = none :=
      codePoint?_surrogate (by omega) (by omega)
    refine readName_of_no_escape ((readEscape_hexFixed _ _).trans ?_)
    rw [surrogate]
    rfl

/-- **An escaped name reads back as itself** if no character of it was escaped as two units;
otherwise it is no name. -/
theorem readName_escaped {name : List Char} (noBackslash : ∀ c ∈ name, c ≠ '\\') (braced : Bool) :
    readName (name.flatMap (nameChar braced)) =
      if name.all (isReadable braced) then some name else none := by
  induction name with
  | nil => simp [readName]
  | cons c rest ih =>
      obtain ⟨first, others⟩ := List.forall_mem_cons.1 noBackslash
      rw [List.flatMap_cons, readName_nameChar first, ih others, List.all_cons]
      cases isReadable braced c <;> cases rest.all (isReadable braced) <;> rfl

end EcmaScribe.Text
