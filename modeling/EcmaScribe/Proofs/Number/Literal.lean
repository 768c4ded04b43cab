/-
# EcmaScribe.Proofs.Number.Literal -- what the literal of a number looks like

Whatever digits the search for the shortest decimal comes back with, the literal built from
them is a numeral: digits with a fraction or an exponent, in which a leading zero stands alone
before the point.  Only a negative number has a sign and only a number that is none has no
digits.
-/
import EcmaScribe.Number.Key
import EcmaScribe.Proofs.Text.Character
import Mathlib.Tactic.Common

namespace EcmaScribe

set_option autoImplicit false

/-! ## Numerals -/

def IsDigits (text : List Char) : Prop := ∀ c ∈ text, c.isDigit = true

instance (text : List Char) : Decidable (IsDigits text) :=
  inferInstanceAs (Decidable (∀ c ∈ text, c.isDigit = true))

/-- A point with digits, or nothing. -/
inductive IsFraction : List Char → Prop
  | none : IsFraction []
  | digits {ds : List Char} (nonempty : ds ≠ []) (digits : IsDigits ds) : IsFraction ('.' :: ds)

/-- An `e` with an optional sign and digits, or nothing. -/
inductive IsExponent : List Char → Prop
  | none : IsExponent []
  | digits {sign ds : List Char} (signed : sign = [] ∨ sign = ['+'] ∨ sign = ['-'])
      (nonempty : ds ≠ []) (digits : IsDigits ds) : IsExponent ('e' :: (sign ++ ds))

/-- A number without a sign as a script writes it. -/
structure IsNumeral (text : List Char) : Prop where
  parts : ∃ whole fraction exponent, text = whole ++ fraction ++ exponent ∧
    IsDigits whole ∧ IsFraction fraction ∧ IsExponent exponent ∧
    (whole = [] → fraction ≠ []) ∧
    (whole.head? = some '0' → whole = ['0'] ∨ (fraction = [] ∧ exponent = []))

theorem IsDigits.append {l m : List Char} (left : IsDigits l) (right : IsDigits m) :
    IsDigits (l ++ m) := List.forall_mem_append.2 ⟨left, right⟩

theorem isDigits_zeros (n : Nat) : IsDigits (Decimal.zeros n) := by
  intro c member
  rw [List.eq_of_mem_replicate member]
  rfl

/-- The characters of a numeral. -/
theorem IsNumeral.mem {text : List Char} (h : IsNumeral text) :
    ∀ c ∈ text, c.isDigit = true ∨ c ∈ ['.', 'e', '+', '-'] := by
  obtain ⟨whole, fraction, exponent, rfl, digits, isFraction, isExponent, -, -⟩ := h
  intro c member
  rcases List.mem_append.1 member with inFront | inExponent
  · rcases List.mem_append.1 inFront with inWhole | inFraction
    · exact .inl (digits c inWhole)
    · cases isFraction with
      | none => cases inFraction
      | digits _ digits =>
          rcases List.mem_cons.1 inFraction with rfl | inDigits
          · exact .inr (by decide)
          · exact .inl (digits c inDigits)
  · cases isExponent with
    | none => cases inExponent
    | digits signed _ digits =>
        rcases List.mem_cons.1 inExponent with rfl | inRest
        · exact .inr (by decide)
        rcases List.mem_append.1 inRest with inSign | inDigits
        · rcases signed with rfl | rfl | rfl
          · cases inSign
          · rw [List.mem_singleton.1 inSign]; exact .inr (by decide)
          · rw [List.mem_singleton.1 inSign]; exact .inr (by decide)
        · exact .inl (digits c inDigits)

/-- A numeral starts with a digit or with its point. -/
theorem IsNumeral.head {text : List Char} (h : IsNumeral text) :
    ∃ c rest, text = c :: rest ∧ (c.isDigit = true ∨ c = '.') := by
  obtain ⟨whole, fraction, exponent, rfl, digits, isFraction, -, some, -⟩ := h
  cases whole with
  | cons c more => exact ⟨c, more ++ fraction ++ exponent, by simp, .inl (digits c (by simp))⟩
  | nil =>
      cases isFraction with
      | none => exact absurd rfl (some rfl)
      | digits _ _ => exact ⟨'.', _, rfl, .inr rfl⟩

/-- Digits alone are a numeral. -/
theorem isNumeral_digits {ds : List Char} (nonempty : ds ≠ []) (digits : IsDigits ds) :
    IsNumeral ds :=
  ⟨ds, [], [], by simp, digits, .none, .none, fun empty => absurd empty nonempty,
    fun _ => .inr ⟨rfl, rfl⟩⟩

/-! ## The digits of a decimal -/

/-- Digits of which only a lone one is a zero in front. -/
structure Decimal.IsPlain (d : Decimal) : Prop where
  nonempty : d.digits ≠ []
  digits : IsDigits d.digits
  leading : d.digits.head? = some '0' → d.digits = ['0']

theorem isDigits_toDigits (n : Nat) : IsDigits (Nat.toDigits 10 n) :=
  fun _ member => Nat.isDigit_of_mem_toDigits (by decide) (by decide) member

theorem digitChar_ne_zero {n : Nat} (positive : 0 < n) (small : n < 10) : n.digitChar ≠ '0' := by
  have table : ∀ k < 10, 0 < k → Nat.digitChar k ≠ '0' := by decide
  exact table n small positive

theorem head?_toDigits_ne {n : Nat} (positive : 0 < n) : (Nat.toDigits 10 n).head? ≠ some '0' := by
  induction n using Nat.strongRecOn with
  | ind n ih =>
      by_cases small : n < 10
      · rw [Nat.toDigits_of_lt_base small]
        simpa using digitChar_ne_zero positive small
      · have more := ih (n / 10) (by omega) (by omega)
        rw [Nat.toDigits_of_base_le (by decide) (by omega), List.head?_append]
        cases front : Nat.toDigits 10 (n / 10) with
        | nil => exact absurd front Nat.toDigits_ne_nil
        | cons c rest => simpa [front] using more

theorem Double.isPlain_shortest (tie : TieRule) (d : Double) : (d.shortest tie).IsPlain := by
  unfold shortest
  generalize searchGrids tie d.interval d.exponent 22 d.decimalOrderBound = found
  obtain ⟨n, p⟩ := found
  refine ⟨Nat.toDigits_ne_nil, isDigits_toDigits n, fun leading => ?_⟩
  rcases Nat.eq_zero_or_pos n with rfl | positive
  · exact Nat.toDigits_zero 10
  · exact absurd leading (head?_toDigits_ne positive)

/-! ## Notations -/

namespace Decimal

variable {d : Decimal}

theorem isNumeral_plain (h : d.IsPlain) : IsNumeral d.plain := by
  unfold plain
  split
  · refine ⟨['0'], '.' :: (zeros (-d.exponent - 1).toNat ++ d.digits), [], by simp, by decide,
      .digits ?_ ((isDigits_zeros _).append h.digits), .none, by simp, fun _ => .inl rfl⟩
    simp [h.nonempty]
  · rename_i positive
    dsimp only
    split
    · exact isNumeral_digits (by simp [h.nonempty]) (h.digits.append (isDigits_zeros _))
    · rename_i long
      refine ⟨d.digits.take (d.exponent.toNat + 1), '.' :: d.digits.drop (d.exponent.toNat + 1), [],
        by simp, fun c member => h.digits c (List.mem_of_mem_take member),
        .digits ?_ fun c member => h.digits c (List.mem_of_mem_drop member), .none, by simp, ?_⟩
      · intro empty
        exact long (List.drop_eq_nil_iff.1 empty)
      · intro leading
        have alone := h.leading (by simpa [List.head?_take] using leading)
        rw [alone] at long
        simp only [List.length_singleton] at long
        omega

theorem isNumeral_scientific (h : d.IsPlain) {plus : List Char} (sign : plus = [] ∨ plus = ['+']) :
    IsNumeral (d.scientific plus) := by
  have exponent : IsExponent ('e' :: ((if d.exponent < 0 then ['-'] else plus) ++
      Nat.toDigits 10 d.exponent.natAbs)) := by
    refine .digits ?_ Nat.toDigits_ne_nil (isDigits_toDigits _)
    split
    · exact .inr (.inr rfl)
    · exact sign.elim .inl fun plus => .inr (.inl plus)
  obtain ⟨digits, power⟩ := d
  obtain ⟨nonempty, allDigits, leading⟩ := h
  simp only at nonempty allDigits leading
  unfold scientific
  match digits, nonempty, allDigits, leading with
  | [first], _, allDigits, _ =>
      exact ⟨[first], [], _, by simp [mantissa], allDigits, .none, exponent, by simp,
        fun zero => .inl (by simpa using zero)⟩
  | first :: second :: rest, _, allDigits, leading =>
      refine ⟨[first], '.' :: second :: rest, _, by simp [mantissa], ?_, .digits (by simp) ?_,
        exponent, by simp, fun zero => ?_⟩
      · exact fun c member => allDigits c (by simp [List.mem_singleton.1 member])
      · exact fun c member => allDigits c (List.mem_cons_of_mem _ member)
      · exact absurd (leading (by simpa using zero)) (by simp)

theorem isNumeral_withoutLeadingZero {text : List Char} (h : IsNumeral text) :
    IsNumeral (withoutLeadingZero text) := by
  unfold withoutLeadingZero
  split
  · rename_i rest
    obtain ⟨whole, fraction, exponent, joined, digits, isFraction, isExponent, some, zero⟩ := h
    -- a leading zero with a point after it is the whole part
    match whole, digits, zero with
    | [], _, _ =>
        cases isFraction with
        | none => exact absurd rfl (some rfl)
        | digits => simp at joined
    | [first], _, _ =>
        simp only [List.cons_append, List.cons.injEq] at joined
        refine ⟨[], fraction, exponent, by simpa using joined.2, by simp [IsDigits], isFraction,
          isExponent, ?_, by simp⟩
        rintro - rfl
        cases isExponent <;> simp at joined
    | first :: second :: more, digits, _ =>
        simp only [List.cons_append, List.cons.injEq] at joined
        have := digits second (by simp)
        rw [← joined.2.1] at this
        cases this
  · exact h

theorem isNumeral_readable (h : d.IsPlain) : IsNumeral d.readable := by
  unfold readable
  split
  · exact isNumeral_plain h
  · exact isNumeral_scientific h (.inr rfl)

theorem isNumeral_brief (h : d.IsPlain) : IsNumeral d.brief := by
  unfold brief
  dsimp only
  split
  · exact isNumeral_scientific h (.inl rfl)
  · exact isNumeral_withoutLeadingZero (isNumeral_plain h)

end Decimal

/-! ## Literals -/

namespace Double

/-- The literal is a numeral, perhaps with a sign, unless it is the name of what is no
number. -/
theorem literal_cases (compact : Bool) (d : Double) :
    d.literal compact = ['N', 'a', 'N'] ∧ d.isNaN = true ∨
      ∃ numeral, IsNumeral numeral ∧
        (d.literal compact = numeral ∨ d.literal compact = '-' :: numeral ∧ d.isNegative = true) := by
  have shape := d.isPlain_shortest .upward
  have signed (numeral : List Char) : d.sign ++ numeral = numeral ∨
      d.sign ++ numeral = '-' :: numeral ∧ d.isNegative = true := by
    unfold sign
    cases negative : d.isNegative <;> simp
  unfold literal
  split
  · exact .inl ⟨rfl, ‹_›⟩
  right
  split
  · refine ⟨['2', 'e', '3', '0', '8'], ?_, signed _⟩
    exact ⟨['2'], [], ['e', '3', '0', '8'], rfl, by decide, .none,
      .digits (.inl rfl) (by decide) (by decide), by simp, by simp⟩
  split
  · exact ⟨['0'], isNumeral_digits (by simp) (by decide), .inl rfl⟩
  cases compact
  · exact ⟨_, Decimal.isNumeral_readable shape, signed _⟩
  · exact ⟨_, Decimal.isNumeral_brief shape, signed _⟩

/-- The literal of a number that is not negative is a numeral. -/
theorem isNumeral_literal {d : Double} (number : d.isNaN = false)
    (nonnegative : d.isNegative = false ∨ d.isZero = true) (compact : Bool) :
    IsNumeral (d.literal compact) := by
  rcases literal_cases compact d with ⟨-, noNumber⟩ | ⟨numeral, isNumeral, plain | ⟨signed, negative⟩⟩
  · rw [number] at noNumber
    cases noNumber
  · rwa [plain]
  · rcases nonnegative with positive | zero
    · rw [positive] at negative
      cases negative
    · have finite : d.isInfinite = false := by
        simp only [isZero, Bool.and_eq_true, beq_iff_eq] at zero
        simp [isInfinite, zero.1]
      simp [literal, number, finite, zero] at signed

theorem isNaN_of_isFinite {d : Double} (finite : d.isFinite = true) : d.isNaN = false := by
  simp only [isFinite, bne_iff_ne, ne_eq] at finite
  simp [isNaN, finite]

/-- A property key that is written as a number is not negative, since no sign is read. -/
theorem nonnegative_of_ofKey? {key : List Char} {d : Double} (h : ofKey? key = some d) :
    d.isFinite = true ∧ (d.isNegative = false ∨ d.isZero = true) := by
  unfold ofKey? at h
  split at h
  · rename_i value read
    split at h
    · rename_i literal
      obtain rfl := Option.some.inj h
      simp only [Bool.and_eq_true, decide_eq_true_eq] at literal
      obtain ⟨finite, written⟩ := literal
      refine ⟨finite, ?_⟩
      by_contra negative
      simp only [not_or, Bool.not_eq_false, Bool.not_eq_true] at negative
      have infinite : value.isInfinite = false := by
        simp only [isFinite, bne_iff_ne, ne_eq] at finite
        simp [isInfinite, finite]
      have signed : ∃ rest, key = '-' :: rest := by
        rw [← written]
        simp [Double.literal, isNaN_of_isFinite finite, infinite, negative.2, sign, negative.1]
      obtain ⟨rest, rfl⟩ := signed
      simp [ofText?, splitFraction, exponentOf?] at read
    · cases h
  · cases h

/-- The characters of a literal. -/
theorem forall_mem_literal {P : Char → Prop} (digits : ∀ n < 10, P (Char.ofNat (48 + n)))
    (signs : ∀ c ∈ ['.', 'e', '+', '-', 'N', 'a'], P c) (compact : Bool) (d : Double) :
    ∀ c ∈ d.literal compact, P c := by
  have inNumeral {numeral : List Char} (h : IsNumeral numeral) : ∀ c ∈ numeral, P c := by
    intro c member
    rcases h.mem c member with digit | sign
    · exact forall_digit digits digit
    · exact signs c (List.mem_append_left ['N', 'a'] sign)
  rcases literal_cases compact d with ⟨name, -⟩ | ⟨numeral, isNumeral, plain | ⟨signed, -⟩⟩
  · rw [name]
    intro c member
    exact signs c (by simp only [List.mem_cons] at member ⊢; tauto)
  · rw [plain]
    exact inNumeral isNumeral
  · rw [signed]
    exact List.forall_mem_cons.2 ⟨signs _ (by decide), inNumeral isNumeral⟩

/-- The first character of a literal. -/
theorem literal_head {P : Char → Prop} (digits : ∀ n < 10, P (Char.ofNat (48 + n)))
    (signs : ∀ c ∈ ['.', '-', 'N'], P c) (compact : Bool) (d : Double) :
    ∃ c rest, d.literal compact = c :: rest ∧ P c := by
  rcases literal_cases compact d with ⟨name, -⟩ | ⟨numeral, isNumeral, plain | ⟨signed, -⟩⟩
  · exact ⟨'N', _, name, signs _ (by decide)⟩
  · obtain ⟨c, rest, rfl, digit | rfl⟩ := isNumeral.head
    · exact ⟨c, rest, plain, forall_digit digits digit⟩
    · exact ⟨'.', rest, plain, signs _ (by decide)⟩
  · exact ⟨'-', numeral, signed, signs _ (by decide)⟩

end Double

end EcmaScribe
