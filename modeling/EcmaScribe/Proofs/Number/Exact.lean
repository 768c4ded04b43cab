/-
# EcmaScribe.Proofs.Number.Exact -- the text of a number is exact

The digits that the search comes back with are laid out in two notations, with a point or with
an exponent, and there are three switches on the way to a literal: where the readable form
changes its notation, whether the zero before a point is dropped, and which notation is shorter.

`standardText` is the layout that the language defines for the text of a number, written from
its definition and not from ours, and `numeralValue?` reads a numeral.  Every notation of a
decimal denotes the same number (`numeralValue?_plain`, `numeralValue?_scientific`), so the
switches cannot change it.

* `literal_exact`: the readable literal is the text of the number, both literals denote it
  exactly, and the compact one is not longer.
* `isToString_literal`, `exists_numeral`: what users of a literal need of it, for zero also.
-/
import EcmaScribe.Proofs.Number.Shortest

namespace EcmaScribe

set_option autoImplicit false

open Decimal

/-! ## Reading a numeral -/

/-- Digits, at least one, as an integer. -/
def digitsInteger? (ds : List Char) : Option Int :=
  if ds ≠ [] ∧ IsDigits ds then some (Nat.ofDigitChars 10 ds 0) else none

/-- The exponent at the end of a numeral. -/
def exponentPart? : List Char → Option Int
  | [] => some 0
  | 'e' :: '+' :: ds => digitsInteger? ds
  | 'e' :: '-' :: ds => (digitsInteger? ds).map fun e => -e
  | 'e' :: ds => digitsInteger? ds
  | _ => none

/-- **The number that a numeral denotes**: its digits as an integer, moved by the exponent and by
the digits after the point.  There is a digit somewhere, and a leading zero stands alone. -/
def numeralValue? (text : List Char) : Option ℚ :=
  let whole := text.takeWhile Char.isDigit
  let (fraction, rest) := Double.splitFraction (text.dropWhile Char.isDigit)
  if whole ++ fraction = [] ∨ whole.head? = some '0' ∧ whole ≠ ['0'] then none
  else (exponentPart? rest).map fun e =>
    (Nat.ofDigitChars 10 (whole ++ fraction) 0 : ℚ) * 10 ^ (e - (fraction.length : Int))

theorem head_exponentPart? {tail : List Char} {e : Int} (power : exponentPart? tail = some e) :
    tail.head?.any Char.isDigit = false ∧ tail.head? ≠ some '.' := by
  unfold exponentPart? at power
  split at power
  · simp
  · exact ⟨rfl, by simp⟩
  · exact ⟨rfl, by simp⟩
  · exact ⟨rfl, by simp⟩
  · cases power

theorem takeWhile_digits {whole : List Char} (tail : List Char) (digits : IsDigits whole)
    (stop : tail.head?.any Char.isDigit = false) :
    (whole ++ tail).takeWhile Char.isDigit = whole ∧
      (whole ++ tail).dropWhile Char.isDigit = tail := by
  rw [List.takeWhile_append_of_pos digits, List.dropWhile_append_of_pos digits]
  cases tail with
  | nil => simp
  | cons c rest =>
      have other : c.isDigit = false := by simpa using stop
      simp [other]

/-- The value of a numeral in parts. -/
theorem numeralValue?_parts (whole point fraction tail : List Char) {e : Int}
    (digits : IsDigits (whole ++ fraction)) (nonempty : whole ++ fraction ≠ [])
    (leading : whole.head? = some '0' → whole = ['0'])
    (shape : point = [] ∧ fraction = [] ∨ point = '.' :: fraction)
    (power : exponentPart? tail = some e) :
    numeralValue? (whole ++ (point ++ tail)) =
      some ((Nat.ofDigitChars 10 (whole ++ fraction) 0 : ℚ) *
        10 ^ (e - (fraction.length : Int))) := by
  obtain ⟨stop, noPoint⟩ := head_exponentPart? power
  obtain ⟨wholeDigits, fractionDigits⟩ := List.forall_mem_append.1 digits
  have split : Double.splitFraction (point ++ tail) = (fraction, tail) := by
    rcases shape with ⟨rfl, rfl⟩ | rfl
    · unfold Double.splitFraction
      split
      · rename_i rest starts
        rw [List.nil_append] at starts
        rw [starts] at noPoint
        exact absurd rfl noPoint
      · rfl
    · obtain ⟨taken, left⟩ := takeWhile_digits tail fractionDigits stop
      simp only [List.cons_append, Double.splitFraction, taken, left]
  have wholeStop : (point ++ tail).head?.any Char.isDigit = false := by
    rcases shape with ⟨rfl, rfl⟩ | rfl
    · exact stop
    · rfl
  obtain ⟨taken, left⟩ := takeWhile_digits _ wholeDigits wholeStop
  have wellFormed : ¬ (whole ++ fraction = [] ∨ whole.head? = some '0' ∧ whole ≠ ['0']) := by
    rintro (empty | ⟨zero, more⟩)
    · exact nonempty empty
    · exact more (leading zero)
  simp only [numeralValue?, taken, left, split, if_neg wellFormed, power, Option.map_some]

/-! ## The notations of a decimal -/

namespace Decimal

/-- A decimal with the digits of a positive integer. -/
structure Writes (d : Decimal) (s : Nat) : Prop where
  positive : 0 < s
  digits : d.digits = Nat.toDigits 10 s

variable {d : Decimal} {s : Nat}

/-- The number that the digits and the exponent stand for. -/
def amount (d : Decimal) (s : Nat) : ℚ := s * 10 ^ (d.exponent + 1 - d.digits.length)

namespace Writes

variable (h : d.Writes s)
include h

theorem isDigits : IsDigits d.digits := h.digits ▸ isDigits_toDigits s

theorem nonempty : d.digits ≠ [] := h.digits ▸ Nat.toDigits_ne_nil

theorem head_ne : d.digits.head? ≠ some '0' := h.digits ▸ head?_toDigits_ne h.positive

theorem value : Nat.ofDigitChars 10 d.digits 0 = s := h.digits ▸ Nat.ofDigitChars_ten_toDigits

/-- Zeros in front do not count. -/
theorem value_zeros_append (n : Nat) : Nat.ofDigitChars 10 (zeros n ++ d.digits) 0 = s := by
  rw [Nat.ofDigitChars_append, zeros, Nat.ofDigitChars_replicate_zero, Nat.mul_zero, h.value]

/-- Zeros behind are factors of ten. -/
theorem value_append_zeros (n : Nat) :
    Nat.ofDigitChars 10 (d.digits ++ zeros n) 0 = 10 ^ n * s := by
  rw [Nat.ofDigitChars_append, zeros, Nat.ofDigitChars_replicate_zero, h.value]

end Writes

/-- Below one the digits stand behind the point. -/
theorem numeralValue?_below_one (h : d.Writes s) (small : d.exponent < 0) {whole : List Char}
    (front : whole = [] ∨ whole = ['0']) :
    numeralValue? (whole ++ '.' :: (zeros (-d.exponent - 1).toNat ++ d.digits)) =
      some (d.amount s) := by
  have digits : IsDigits (whole ++ (zeros (-d.exponent - 1).toNat ++ d.digits)) := by
    refine IsDigits.append ?_ ((isDigits_zeros _).append h.isDigits)
    rcases front with rfl | rfl <;> decide
  have read := numeralValue?_parts whole _ (zeros (-d.exponent - 1).toNat ++ d.digits) [] digits
    (by simp [h.nonempty]) (by rcases front with rfl | rfl <;> simp) (.inr rfl) rfl
  rw [List.append_nil] at read
  rw [read, amount]
  have zero : Nat.ofDigitChars 10 whole 0 = 0 := by rcases front with rfl | rfl <;> rfl
  have length : (0 : Int) - (zeros (-d.exponent - 1).toNat ++ d.digits).length =
      d.exponent + 1 - d.digits.length := by
    simp only [zeros, List.length_append, List.length_replicate]
    omega
  rw [Nat.ofDigitChars_append, zero, h.value_zeros_append, length]

theorem numeralValue?_plain (h : d.Writes s) : numeralValue? d.plain = some (d.amount s) := by
  unfold plain
  split
  · rename_i small
    exact numeralValue?_below_one h small (.inr rfl)
  · rename_i large
    dsimp only
    split
    · rename_i short
      have noZero : (d.digits ++ zeros (d.exponent.toNat + 1 - d.digits.length)).head? ≠
          some '0' := by
        rw [List.head?_append_of_ne_nil _ h.nonempty]
        exact h.head_ne
      have read := numeralValue?_parts
        (d.digits ++ zeros (d.exponent.toNat + 1 - d.digits.length)) [] [] [] (by simpa using h.isDigits.append (isDigits_zeros _)) (by simp [h.nonempty])
        (fun zero => absurd zero noZero) (.inl ⟨rfl, rfl⟩) rfl
      simp only [List.append_nil, List.length_nil] at read
      rw [read, amount, h.value_append_zeros]
      have power : d.exponent + 1 - d.digits.length =
          ((d.exponent.toNat + 1 - d.digits.length : Nat) : Int) := by omega
      rw [power, zpow_natCast]
      push_cast
      simp [mul_comm]
    · rename_i long
      have joined := List.take_append_drop (d.exponent.toNat + 1) d.digits
      have read := numeralValue?_parts (d.digits.take (d.exponent.toNat + 1)) _
        (d.digits.drop (d.exponent.toNat + 1)) [] (by rw [joined]; exact h.isDigits) (by rw [joined]; exact h.nonempty)
        (fun zero => absurd zero (by rw [List.head?_take]; simpa using h.head_ne)) (.inr rfl) rfl
      rw [List.append_nil, joined, h.value] at read
      rw [read, amount, List.length_drop]
      congr 3
      omega

theorem withoutLeadingZero_of_head_ne {text : List Char} (head : text.head? ≠ some '0') :
    withoutLeadingZero text = text := by
  unfold withoutLeadingZero
  split
  · exact absurd rfl head
  · rfl

theorem numeralValue?_withoutLeadingZero_plain (h : d.Writes s) :
    numeralValue? (withoutLeadingZero d.plain) = some (d.amount s) := by
  by_cases small : d.exponent < 0
  · have text : withoutLeadingZero d.plain =
        [] ++ '.' :: (zeros (-d.exponent - 1).toNat ++ d.digits) := by
      simp only [plain, if_pos small, withoutLeadingZero, List.cons_append, List.nil_append]
    rw [text]
    exact numeralValue?_below_one h small (.inl rfl)
  · have front : d.plain.head? = d.digits.head? := by
      unfold plain
      rw [if_neg small]
      dsimp only
      split
      · exact List.head?_append_of_ne_nil _ h.nonempty
      · rw [List.head?_append_of_ne_nil _ (by simp [h.nonempty]), List.head?_take]
        simp
    rw [withoutLeadingZero_of_head_ne (front ▸ h.head_ne)]
    exact numeralValue?_plain h

/-! ### Exponents -/

theorem exponentPart?_written {plus : List Char} (sign : plus = [] ∨ plus = ['+']) (e : Int) :
    exponentPart? ('e' :: ((if e < 0 then ['-'] else plus) ++ Nat.toDigits 10 e.natAbs)) =
      some e := by
  have read : digitsInteger? (Nat.toDigits 10 e.natAbs) = some (e.natAbs : Int) := by
    rw [digitsInteger?, if_pos ⟨Nat.toDigits_ne_nil, isDigits_toDigits _⟩,
      Nat.ofDigitChars_ten_toDigits]
  split
  · simp only [List.cons_append, List.nil_append, exponentPart?, read, Option.map_some]
    congr 1
    omega
  · have same : (e.natAbs : Int) = e := by omega
    rw [same] at read
    rcases sign with rfl | rfl
    · -- without a sign a digit comes first, which is none of the signs
      rw [List.nil_append]
      have digits := isDigits_toDigits e.natAbs
      generalize Nat.toDigits 10 e.natAbs = ds at read digits
      unfold exponentPart?
      split
      · rename_i empty
        cases empty
      · rename_i plus
        rw [(List.cons.inj plus).2] at digits
        exact absurd (digits '+' (List.mem_cons_self ..)) (by decide)
      · rename_i minus
        rw [(List.cons.inj minus).2] at digits
        exact absurd (digits '-' (List.mem_cons_self ..)) (by decide)
      · rename_i rest
        rw [← (List.cons.inj rest).2]
        exact read
      · rename_i other
        exact absurd rfl (other ds)
    · simpa only [List.cons_append, List.nil_append, exponentPart?] using read

/-- The mantissa, then the exponent part. -/
theorem scientific_eq (plus : List Char) : d.scientific plus = d.mantissa ++
    'e' :: ((if d.exponent < 0 then ['-'] else plus) ++ Nat.toDigits 10 d.exponent.natAbs) := by
  simp [scientific]

theorem numeralValue?_scientific (h : d.Writes s) {plus : List Char}
    (sign : plus = [] ∨ plus = ['+']) :
    numeralValue? (d.scientific plus) = some (d.amount s) := by
  have power := exponentPart?_written sign d.exponent
  have digits := h.isDigits
  have head := h.head_ne
  have value := h.value
  rw [scientific_eq]
  generalize 'e' :: ((if d.exponent < 0 then ['-'] else plus) ++
    Nat.toDigits 10 d.exponent.natAbs) = tail at power
  unfold mantissa amount
  split
  · rename_i first second rest shape
    rw [shape] at digits head value
    have read := numeralValue?_parts [first] _ (second :: rest) tail digits (by simp) (fun zero => absurd zero head) (.inr rfl) power
    simp only [List.cons_append, List.nil_append, value] at read ⊢
    rw [read, shape]
    congr 3
    simp only [List.length_cons]
    omega
  · rename_i long
    have single : d.digits.length = 1 := by
      match shape : d.digits with
      | [] => exact absurd shape h.nonempty
      | [_] => rfl
      | first :: second :: rest => exact absurd shape (long first second rest)
    have read := numeralValue?_parts d.digits [] [] tail (by simpa using digits) (by simpa using h.nonempty) (fun zero => absurd zero head)
      (.inl ⟨rfl, rfl⟩) power
    simp only [List.append_nil, List.nil_append, List.length_nil, value] at read
    rw [read, single]
    congr 3
    omega

theorem numeralValue?_readable (h : d.Writes s) : numeralValue? d.readable = some (d.amount s) := by
  unfold readable
  split
  · exact numeralValue?_plain h
  · exact numeralValue?_scientific h (.inr rfl)

theorem numeralValue?_brief (h : d.Writes s) : numeralValue? d.brief = some (d.amount s) := by
  unfold brief
  dsimp only
  split
  · exact numeralValue?_scientific h (.inl rfl)
  · exact numeralValue?_withoutLeadingZero_plain h

/-! ## The lengths of the notations -/

theorem length_withoutLeadingZero_le (text : List Char) :
    (withoutLeadingZero text).length ≤ text.length := by
  unfold withoutLeadingZero
  split
  · simp
  · exact le_rfl

theorem length_brief_le (d : Decimal) : d.brief.length ≤ (withoutLeadingZero d.plain).length ∧
    d.brief.length ≤ (d.scientific []).length := by
  unfold brief
  dsimp only
  split <;> omega

/-- The literal for machines is no longer than the one for people. -/
theorem length_brief_le_readable (d : Decimal) : d.brief.length ≤ d.readable.length := by
  obtain ⟨decimal, exponential⟩ := length_brief_le d
  unfold readable
  split
  · exact decimal.trans (length_withoutLeadingZero_le d.plain)
  · refine exponential.trans ?_
    rw [scientific_eq, scientific_eq]
    simp only [List.length_append, List.length_cons]
    split <;> simp

end Decimal

/-! ## The text that the language defines -/

/-- **The text of a number** with the `k` digits of `s`, the point after `n` of them, as the
language defines it: decimal notation for `n` from -5 to 21, an exponent with its sign
otherwise. -/
def standardText (s k : Nat) (n : Int) : List Char :=
  let digits := Nat.toDigits 10 s
  if k ≤ n ∧ n ≤ 21 then digits ++ List.replicate (n - k).toNat '0'
  else if 0 < n ∧ n ≤ 21 then digits.take n.toNat ++ '.' :: digits.drop n.toNat
  else if -6 < n ∧ n ≤ 0 then '0' :: '.' :: (List.replicate (-n).toNat '0' ++ digits)
  else
    let exponent := 'e' :: (if n < 0 then '-' else '+') :: Nat.toDigits 10 (n - 1).natAbs
    if k = 1 then digits ++ exponent
    else digits.take 1 ++ '.' :: (digits.drop 1 ++ exponent)

namespace Decimal

variable {d : Decimal} {s : Nat}

theorem plain_eq_standardText (h : d.Writes s) (least : -6 ≤ d.exponent) (most : d.exponent ≤ 20) :
    d.plain = standardText s d.digits.length (d.exponent + 1) := by
  have digitCount := List.length_pos_of_ne_nil h.nonempty
  unfold standardText plain zeros
  rw [← h.digits]
  dsimp only
  split
  · rename_i small
    rw [if_neg (by omega), if_neg (by omega), if_pos (by omega), List.cons_append, List.cons_append]
    congr 4
    omega
  · rename_i large
    split
    · rename_i short
      rw [if_pos (by omega)]
      congr 2
      omega
    · rename_i long
      have whole : (d.exponent + 1).toNat = d.exponent.toNat + 1 := by omega
      rw [if_neg (by omega), if_pos (by omega), whole]

theorem scientific_eq_standardText (h : d.Writes s) (far : d.exponent < -6 ∨ 20 < d.exponent) :
    d.scientific ['+'] = standardText s d.digits.length (d.exponent + 1) := by
  have digitCount := List.length_pos_of_ne_nil h.nonempty
  have sign : (if d.exponent < 0 then ['-'] else ['+']) =
      [if d.exponent + 1 < 0 then '-' else '+'] := by
    by_cases negative : d.exponent < 0
    · rw [if_pos negative, if_pos (by omega)]
    · rw [if_neg negative, if_neg (by omega)]
  unfold standardText
  have notWhole : ¬ ((d.digits.length : Int) ≤ d.exponent + 1 ∧ d.exponent + 1 ≤ 21) := by omega
  have notSplit : ¬ (0 < d.exponent + 1 ∧ d.exponent + 1 ≤ 21) := by omega
  have notBelow : ¬ (-6 < d.exponent + 1 ∧ d.exponent + 1 ≤ 0) := by omega
  rw [scientific_eq, ← h.digits, sign, if_neg notWhole, if_neg notSplit, if_neg notBelow,
    add_sub_cancel_right]
  dsimp only
  unfold mantissa
  match shape : d.digits with
  | [] => exact absurd shape h.nonempty
  | [first] => rfl
  | first :: second :: rest =>
      have several : (first :: second :: rest).length ≠ 1 := by simp
      rw [if_neg several]
      rfl

theorem readable_eq_standardText (h : d.Writes s) :
    d.readable = standardText s d.digits.length (d.exponent + 1) := by
  unfold readable
  split
  · rename_i near
    exact plain_eq_standardText h near.1 near.2
  · rename_i far
    exact scientific_eq_standardText h (by omega)

end Decimal

/-! ## Literals -/

namespace Double

variable {d : Double}

/-- The literal of a finite nonzero number is its sign and a notation of the shortest decimal. -/
theorem literal_of_finite (finite : d.isFinite = true) (nonzero : d.isZero = false)
    (compact : Bool) : d.literal compact = d.sign ++
      if compact then (d.shortest .upward).brief else (d.shortest .upward).readable := by
  have infinite : d.isInfinite = false := by
    simp only [isFinite, bne_iff_ne, ne_eq] at finite
    simp [isInfinite, finite]
  simp only [literal, isNaN_of_isFinite finite, infinite, nonzero, Bool.false_eq_true, if_false]

/-- The shortest decimal has the digits of an integer that the double is written with. -/
theorem exists_writes_shortest (finite : d.isFinite = true) (nonzero : d.isZero = false) :
    ∃ s, (d.shortest .upward).Writes s ∧ d.HasDigits s (d.shortest .upward).digits.length
      ((d.shortest .upward).exponent + 1) := by
  obtain ⟨s, digits, hasDigits⟩ := exists_hasDigits_shortest finite nonzero .upward
  exact ⟨s, ⟨lt_of_lt_of_le (by positivity) hasDigits.least, digits⟩, hasDigits⟩

/-- **The text of a number is exact.**  Every finite number other than zero has digits, the fewest
that read back as it, such that

* its readable literal is the text that the language defines for them;
* both literals are the sign and a numeral that denotes exactly the number of these digits;
* the compact one is not longer. -/
theorem literal_exact (finite : d.isFinite = true) (nonzero : d.isZero = false) :
    ∃ (s k : Nat) (n : Int), d.HasDigits s k n ∧
      d.literal false = d.sign ++ standardText s k n ∧
      (∀ compact, ∃ numeral, d.literal compact = d.sign ++ numeral ∧
        numeralValue? numeral = some ((s : ℚ) * 10 ^ (n - k))) ∧
      (d.literal true).length ≤ (d.literal false).length := by
  obtain ⟨s, writes, hasDigits⟩ := exists_writes_shortest finite nonzero
  have text := literal_of_finite finite nonzero
  refine ⟨s, _, _, hasDigits, ?_, fun compact => ⟨_, text compact, ?_⟩, ?_⟩
  · rw [text]
    exact congrArg _ (Decimal.readable_eq_standardText writes)
  · cases compact
    · exact Decimal.numeralValue?_readable writes
    · exact Decimal.numeralValue?_brief writes
  · rw [text, text, List.length_append, List.length_append]
    exact Nat.add_le_add_left (Decimal.length_brief_le_readable _) _

/-- A negative number of nine digits that has an exponent in both notations. -/
theorem literal_exact_nine_digits :
    let d : Double := ⟨0xC4DFE185CA57C517⟩
    (d.isFinite = true ∧ d.isZero = false) ∧ ∃ (s k : Nat) (n : Int), d.HasDigits s k n ∧
      d.literal false = d.sign ++ standardText s k n ∧
      (∀ compact, ∃ numeral, d.literal compact = d.sign ++ numeral ∧
        numeralValue? numeral = some ((s : ℚ) * 10 ^ (n - k))) ∧
      (d.literal true).length ≤ (d.literal false).length :=
  ⟨by decide, literal_exact (by decide) (by decide)⟩

example : (⟨0xC4DFE185CA57C517⟩ : Double).literal false =
    ['-', '6', '.', '0', '2', '2', '1', '4', '0', '7', '6', 'e', '+', '2', '3'] := by decide

/-! ## Literals and what they denote -/

/-- The text of a number as the language defines it.  Of several integers with the fewest digits
it leaves the choice open. -/
inductive IsToString (d : Double) : List Char → Prop
  | nan (nan : d.isNaN = true) : IsToString d ['N', 'a', 'N']
  | zero (zero : d.isZero = true) : IsToString d ['0']
  | infinite (infinite : d.isInfinite = true) :
      IsToString d (d.sign ++ ['I', 'n', 'f', 'i', 'n', 'i', 't', 'y'])
  | finite {s k : Nat} {n : Int} (nonzero : d.isZero = false) (digits : d.HasDigits s k n) :
      IsToString d (d.sign ++ standardText s k n)

theorem literal_of_isZero (zero : d.isZero = true) (compact : Bool) :
    d.literal compact = ['0'] := by
  have exponent : d.biasedExponent = 0 := by
    simp only [isZero, Bool.and_eq_true, beq_iff_eq] at zero
    exact zero.1
  simp [literal, isNaN, isInfinite, exponent, zero]

/-- The readable literal of a finite number is its text. -/
theorem isToString_literal (finite : d.isFinite = true) : d.IsToString (d.literal false) := by
  by_cases zero : d.isZero = true
  · rw [literal_of_isZero zero]
    exact .zero zero
  · have nonzero : d.isZero = false := by simpa using zero
    obtain ⟨s, writes, hasDigits⟩ := exists_writes_shortest finite nonzero
    rw [literal_of_finite finite nonzero, if_neg (by decide),
      Decimal.readable_eq_standardText writes]
    exact .finite nonzero hasDigits

/-- The sign that is written: zero has none. -/
def writtenSign (d : Double) : List Char := if d.isZero then [] else d.sign

theorem numeralValue?_zero : numeralValue? ['0'] = some 0 := by
  simpa [Nat.ofDigitChars_cons] using numeralValue?_parts ['0'] [] [] [] (by decide) (by decide) (fun _ => rfl) (.inl ⟨rfl, rfl⟩) rfl

/-- **A literal reads back**: after its sign stands a numeral, and what it denotes reads back as
the double. -/
theorem exists_numeral (finite : d.isFinite = true) (compact : Bool) :
    ∃ numeral x, d.literal compact = d.writtenSign ++ numeral ∧ IsNumeral numeral ∧
      numeralValue? numeral = some x ∧ d.Represents (d.signed x) := by
  unfold writtenSign
  by_cases zero : d.isZero = true
  · refine ⟨['0'], 0, ?_, isNumeral_digits (by simp) (by decide), numeralValue?_zero,
      represents_zero zero⟩
    rw [literal_of_isZero zero, if_pos zero, List.nil_append]
  · have nonzero : d.isZero = false := by simpa using zero
    obtain ⟨s, writes, hasDigits⟩ := exists_writes_shortest finite nonzero
    have plain := d.isPlain_shortest .upward
    rw [if_neg zero]
    refine ⟨_, _, literal_of_finite finite nonzero compact, ?_, ?_, hasDigits.reads⟩
    · cases compact
      · exact Decimal.isNumeral_readable plain
      · exact Decimal.isNumeral_brief plain
    · cases compact
      · exact Decimal.numeralValue?_readable writes
      · exact Decimal.numeralValue?_brief writes

/-- The literal of a number that is not negative is a numeral and reads back. -/
theorem exists_value_of_nonnegative (finite : d.isFinite = true)
    (nonnegative : d.isNegative = false ∨ d.isZero = true) (compact : Bool) :
    ∃ x, numeralValue? (d.literal compact) = some x ∧ d.Represents x := by
  by_cases zero : d.isZero = true
  · have reads := represents_zero zero
    have unsigned : d.signed 0 = 0 := by simp [signed]
    rw [unsigned] at reads
    exact ⟨0, by rw [literal_of_isZero zero, numeralValue?_zero], reads⟩
  · have positive : d.isNegative = false := nonnegative.resolve_right zero
    obtain ⟨numeral, x, written, -, value, reads⟩ := exists_numeral finite compact
    have noSign : d.writtenSign = [] := by simp [writtenSign, sign, positive]
    rw [signed, positive, if_neg (by decide)] at reads
    rw [written, noSign, List.nil_append]
    exact ⟨x, value, reads⟩

end Double
end EcmaScribe
