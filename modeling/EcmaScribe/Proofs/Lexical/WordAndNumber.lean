/-
# EcmaScribe.Proofs.Lexical.WordAndNumber -- words and numbers end where nothing goes on

Words and numbers have no delimiter: they end where the next character cannot go on with them.
A word goes on with a character of a name or the backslash of an escape, since its parts can be
told apart from the left (`nameParts_of_append`).  A number goes on with a letter or a digit,
and digits alone also with a point (`IsNumber.inside`).
-/
import EcmaScribe.Proofs.Lexical.Element
import Mathlib.Data.List.TakeWhile

namespace EcmaScribe

set_option autoImplicit false

open Text

namespace Lexical

variable {k : IdentifierClass}

/-! ## Characters -/

theorem isIdentifierPart_of_isDigit {c : Char} (digit : c.isDigit = true) :
    isIdentifierPart c = true :=
  forall_digit (P := fun c => isIdentifierPart c = true) (by decide) digit

theorem isAscii_of_isHexDigit {c : Char} (digit : isHexDigit c = true) : isAscii c = true := by
  by_contra foreign
  have large : 128 ≤ c.toNat := by simpa [isAscii] using foreign
  have bound (last : Char) (small : last.toNat < 128) : ¬ c ≤ last := fun le => by
    have : c.toNat ≤ last.toNat := le
    omega
  simp [isHexDigit, hexValue?, bound '9' (by decide), bound 'f' (by decide), bound 'F' (by decide)]
    at digit

/-- What holds of the ASCII characters that are digits in base sixteen. -/
theorem forall_hexDigit {P : Char → Prop}
    (table : ∀ n < 128, isHexDigit (Char.ofNat n) = true → P (Char.ofNat n)) {c : Char}
    (digit : isHexDigit c = true) : P c :=
  forall_ascii (P := fun c => isHexDigit c = true → P c) table (isAscii_of_isHexDigit digit) digit

theorem isIdentifierPart_of_isHexDigit {c : Char} (digit : isHexDigit c = true) :
    isIdentifierPart c = true :=
  forall_hexDigit (P := fun c => isIdentifierPart c = true) (by decide) digit

theorem isDigit_of_isOctalDigit {c : Char} (digit : isOctalDigit c = true) : c.isDigit = true := by
  simp only [isOctalDigit, Bool.and_eq_true, decide_eq_true_eq] at digit
  have low : 48 ≤ c.toNat := digit.1
  have high : c.toNat ≤ 55 := digit.2
  simp only [Char.isDigit, Bool.and_eq_true, decide_eq_true_eq, UInt32.le_iff_toNat_le]
  exact ⟨low, Nat.le_trans high (by decide)⟩

theorem isIdentifierPart_of_radix {marks : List Char} {isDigit : Char → Bool}
    (base : (marks, isDigit) ∈ radixMarks) {c : Char} (digit : isDigit c = true) :
    isIdentifierPart c = true := by
  simp only [radixMarks, List.mem_cons, Prod.mk.injEq, List.not_mem_nil, or_false] at base
  rcases base with ⟨-, rfl⟩ | ⟨-, rfl⟩ | ⟨-, rfl⟩
  · simp only [Bool.or_eq_true, decide_eq_true_eq] at digit
    rcases digit with rfl | rfl <;> rfl
  · exact isIdentifierPart_of_isDigit (isDigit_of_isOctalDigit digit)
  · exact isIdentifierPart_of_isHexDigit digit

theorem continues_backslash : k.continues '\\' = false := by
  rw [k.continues_ascii '\\' rfl]
  rfl

/-! ## Words -/

theorem Repeated.append {Part : List Char → Prop} {l m : List Char} (left : Repeated Part l)
    (right : Repeated Part m) : Repeated Part (l ++ m) := by
  induction left with
  | nil => exact right
  | cons first _ ih =>
      rw [List.append_assoc]
      exact .cons first ih

/-- When parts can be told apart from the left, what stands after parts consists of parts. -/
theorem Repeated.of_append {Part : List Char → Prop} (nonempty : ¬ Part [])
    (unique : ∀ {part part' rest rest' : List Char}, Part part → Part part' →
      part ++ rest = part' ++ rest' → rest = rest')
    {text rest : List Char} (h : Repeated Part text) (whole : Repeated Part (text ++ rest)) :
    Repeated Part rest := by
  induction h with
  | nil => exact whole
  | cons first _ ih =>
      generalize joined : _ ++ rest = all at whole
      cases whole with
      | nil =>
          have empty := (List.append_eq_nil_iff.1 (List.append_eq_nil_iff.1 joined).1).1
          rw [empty] at first
          exact absurd first nonempty
      | cons first' more' =>
          rw [List.append_assoc] at joined
          have same := unique first first' joined
          exact ih (same ▸ more')

/-- An escape tells where it ends. -/
theorem IsEscape.eq_of_append {e e' rest rest' : List Char} (h : IsEscape e) (h' : IsEscape e')
    (same : e ++ rest = e' ++ rest') : rest = rest' := by
  have noBrace {a : Char} (digit : isHexDigit a = true) : a ≠ '\x7b' := by
    rintro rfl
    cases digit
  cases h with
  | fixed digits =>
      cases h' with
      | fixed digits' =>
          simp only [List.cons_append, List.nil_append, List.cons.injEq, true_and] at same
          exact same.2.2.2.2
      | braced nonempty digits' =>
          simp only [List.cons_append, List.cons.injEq, true_and] at same
          exact absurd same.1 (noBrace (digits _ (by simp)))
  | braced nonempty digits =>
      cases h' with
      | fixed digits' =>
          simp only [List.cons_append, List.cons.injEq, true_and] at same
          exact absurd same.1.symm (noBrace (digits' _ (by simp)))
      | braced nonempty' digits' =>
          simp only [List.cons_append, List.cons.injEq, true_and, List.append_assoc,
            List.nil_append] at same
          have cut := congrArg (List.dropWhile isHexDigit) same
          rw [List.dropWhile_append_of_pos digits, List.dropWhile_append_of_pos digits'] at cut
          simpa [show isHexDigit '\x7d' = false from rfl] using cut

theorem IsEscape.head {e : List Char} (h : IsEscape e) : ∃ rest, e = '\\' :: rest := by
  cases h with
  | fixed => exact ⟨_, rfl⟩
  | braced => exact ⟨_, rfl⟩

theorem IsNamePart.nonempty : ¬ IsNamePart k [] := by
  generalize empty : ([] : List Char) = text
  intro h
  cases h with
  | char => cases empty
  | escape isEscape =>
      obtain ⟨rest, rfl⟩ := isEscape.head
      cases empty

theorem IsNamePart.eq_of_append {part part' rest rest' : List Char} (h : IsNamePart k part)
    (h' : IsNamePart k part') (same : part ++ rest = part' ++ rest') : rest = rest' := by
  cases h with
  | char continues =>
      cases h' with
      | char => exact (List.cons.inj same).2
      | escape isEscape =>
          obtain ⟨tail, rfl⟩ := isEscape.head
          rw [(List.cons.inj same).1, continues_backslash] at continues
          cases continues
  | escape isEscape =>
      cases h' with
      | char continues =>
          obtain ⟨tail, rfl⟩ := isEscape.head
          rw [← (List.cons.inj same).1, continues_backslash] at continues
          cases continues
      | escape isEscape' => exact isEscape.eq_of_append isEscape' same

/-- What goes on with the parts of a name is an identifier part. -/
theorem isIdentifierPart_of_nameParts {c : Char} {rest : List Char}
    (h : Repeated (IsNamePart k) (c :: rest)) : isIdentifierPart c = true := by
  generalize joined : c :: rest = text at h
  cases h with
  | nil => cases joined
  | cons first more =>
      cases first with
      | char continues =>
          rw [(List.cons.inj joined).1]
          exact IdentifierClass.isIdentifierPart_of_continues continues
      | escape isEscape =>
          obtain ⟨tail, rfl⟩ := isEscape.head
          rw [(List.cons.inj joined).1]
          rfl

theorem nameParts_of_append {text rest : List Char} (h : Repeated (IsNamePart k) text)
    (whole : Repeated (IsNamePart k) (text ++ rest)) : Repeated (IsNamePart k) rest :=
  h.of_append IsNamePart.nonempty IsNamePart.eq_of_append whole

theorem nameParts_of_continues {text : List Char} (h : ∀ c ∈ text, k.continues c = true) :
    Repeated (IsNamePart k) text := by
  induction text with
  | nil => exact .nil
  | cons c rest ih =>
      exact .cons (.char (h c (by simp))) (ih fun d member => h d (by simp [member]))

/-- A name is a word. -/
theorem isWord_of_isName {text : List Char} (h : k.isName text = true) : IsWord k text := by
  cases text with
  | nil => cases h
  | cons c rest =>
      obtain ⟨starts, continues⟩ := IdentifierClass.isName_cons h
      refine ⟨⟨c, rest, rfl, .inl starts⟩, nameParts_of_continues ?_⟩
      exact List.forall_mem_cons.2 ⟨k.continues_of_starts c starts, continues⟩

/-! ## Numbers -/

/-- A character inside a text stands in its first part or behind it. -/
theorem mem_or_append_of_eq {part rest before after : List Char} {c : Char}
    (same : part ++ rest = before ++ c :: after) :
    c ∈ part ∨ ∃ inner, before = part ++ inner ∧ rest = inner ++ c :: after := by
  rcases List.append_eq_append_iff.1 same with ⟨inner, rfl, rest⟩ | ⟨inner, rfl, joined⟩
  · exact .inr ⟨inner, rfl, rest⟩
  · cases inner with
    | nil => exact .inr ⟨[], by simp, by simpa using joined.symm⟩
    | cons d inner =>
        rw [(List.cons.inj joined).1]
        exact .inl (by simp)

/-- The text ends in the letter of an exponent. -/
def EndsInMark (text : List Char) : Prop := text.getLast? = some 'e' ∨ text.getLast? = some 'E'

theorem EndsInMark.append {text : List Char} (h : EndsInMark text) (front : List Char) :
    EndsInMark (front ++ text) := by
  rcases h with small | capital
  · exact .inl (by rw [List.getLast?_append, small]; rfl)
  · exact .inr (by rw [List.getLast?_append, capital]; rfl)

/-- Inside an exponent stand letters and digits, and a sign after the letter. -/
theorem IsExponentPart.inside {before after : List Char} {c : Char}
    (h : IsExponentPart (before ++ c :: after)) : isIdentifierPart c = true ∨ EndsInMark before := by
  generalize joined : before ++ c :: after = text at h
  cases h with
  | none => simp at joined
  | @digits mark sign ds marked signed _ digits =>
      cases before with
      | nil =>
          left
          rw [(List.cons.inj joined).1]
          rcases marked with rfl | rfl <;> rfl
      | cons m before =>
          simp only [List.cons_append, List.cons.injEq] at joined
          obtain ⟨rfl, joined⟩ := joined
          have isDigit (member : c ∈ ds) : isIdentifierPart c = true :=
            isIdentifierPart_of_isDigit (digits c member)
          rcases mem_or_append_of_eq joined.symm with inSign | ⟨inner, -, rest⟩
          · cases before with
            | nil =>
                right
                rcases marked with rfl | rfl
                · exact .inl rfl
                · exact .inr rfl
            | cons s before =>
                left
                rcases signed with rfl | rfl | rfl
                · cases inSign
                · have tail : before ++ c :: after = ds := (List.cons.inj joined).2
                  exact isDigit (by simp [← tail])
                · have tail : before ++ c :: after = ds := (List.cons.inj joined).2
                  exact isDigit (by simp [← tail])
          · exact .inl (isDigit (by simp [rest]))

/-- Inside a number stand letters and digits, a point after digits, and a sign after the letter
of an exponent. -/
theorem IsNumber.inside {before after : List Char} {c : Char}
    (h : IsNumber (before ++ c :: after)) :
    isIdentifierPart c = true ∨ (c = '.' ∧ IsDigits before) ∨ EndsInMark before := by
  have inExponent (front : List Char) {inner exponent : List Char}
      (isExponent : IsExponentPart exponent) (rest : exponent = inner ++ c :: after) :
      isIdentifierPart c = true ∨ EndsInMark (front ++ inner) := by
    rw [rest] at isExponent
    exact isExponent.inside.imp_right fun mark => mark.append front
  have inDigits {ds : List Char} (digits : IsDigits ds) (member : c ∈ ds) :
      isIdentifierPart c = true := isIdentifierPart_of_isDigit (digits c member)
  generalize joined : before ++ c :: after = text at h
  cases h with
  | whole isWhole isExponent =>
      rcases mem_or_append_of_eq joined.symm with member | ⟨inner, rfl, rest⟩
      · exact .inl (inDigits isWhole.digits member)
      · exact (inExponent _ isExponent rest).imp_right .inr
  | @point whole fraction exponent isWhole digits isExponent =>
      rcases mem_or_append_of_eq joined.symm with member | ⟨inner, rfl, rest⟩
      · exact .inl (inDigits isWhole.digits member)
      cases inner with
      | nil =>
          refine .inr (.inl ⟨(List.cons.inj rest).1.symm, ?_⟩)
          simpa using isWhole.digits
      | cons point inner =>
          rcases mem_or_append_of_eq (List.cons.inj rest).2 with member | ⟨inner, rfl, tail⟩
          · exact .inl (inDigits digits member)
          · have found := inExponent (whole ++ point :: fraction) isExponent tail
            rw [List.append_assoc, List.cons_append] at found
            exact found.imp_right .inr
  | fraction _ digits isExponent =>
      cases before with
      | nil => exact .inr (.inl ⟨(List.cons.inj joined).1, by simp [IsDigits]⟩)
      | cons point before =>
          rcases mem_or_append_of_eq (List.cons.inj joined).2.symm with member | ⟨inner, rfl, rest⟩
          · exact .inl (inDigits digits member)
          · exact (inExponent (point :: _) isExponent rest).imp_right .inr
  | @radix marks isDigit mark ds base marked _ digits =>
      have letter : isIdentifierPart mark = true := by
        have table : ∀ entry ∈ radixMarks, ∀ m ∈ entry.1, isIdentifierPart m = true := by decide
        exact table _ base mark marked
      have member : c ∈ '0' :: mark :: ds := by simp [← joined]
      refine .inl ?_
      rcases List.mem_cons.1 member with rfl | member
      · rfl
      rcases List.mem_cons.1 member with rfl | member
      · exact letter
      · exact isIdentifierPart_of_radix base (digits c member)
  | @octal ds _ digits =>
      have member : c ∈ '0' :: ds := by simp [← joined]
      refine .inl ?_
      rcases List.mem_cons.1 member with rfl | member
      · rfl
      · exact isIdentifierPart_of_isDigit (isDigit_of_isOctalDigit (digits c member))

theorem isExponentPart_of_isExponent {text : List Char} (h : IsExponent text) :
    IsExponentPart text := by
  cases h with
  | none => exact .none
  | digits signed nonempty digits => exact .digits (.inl rfl) signed nonempty digits

/-- Digits alone are a number, if only an octal one. -/
theorem isNumber_digits {ds : List Char} (nonempty : ds ≠ []) (digits : IsDigits ds) :
    IsNumber ds := by
  by_cases octal : ∃ rest, ds = '0' :: rest ∧ rest ≠ [] ∧ ∀ d ∈ rest, isOctalDigit d = true
  · obtain ⟨rest, rfl, more, allOctal⟩ := octal
    exact .octal more allOctal
  · have isWhole : IsWhole ds := by
      refine ⟨nonempty, digits, fun zero => ?_⟩
      obtain ⟨rest, rfl⟩ := List.head?_eq_some_iff.1 zero
      by_contra none
      simp only [not_or, not_exists, not_and, Bool.not_eq_false] at none
      have more : rest ≠ [] := by
        rintro rfl
        exact none.1 rfl
      exact octal ⟨rest, rfl, more, fun d member => none.2 d (List.mem_cons_of_mem _ member)⟩
    simpa using IsNumber.whole isWhole .none

/-- The literals that a script writes are numbers. -/
theorem isNumber_of_isNumeral {text : List Char} (h : IsNumeral text) : IsNumber text := by
  obtain ⟨whole, fraction, exponent, rfl, digits, isFraction, isExponent, some, zero⟩ := h
  have exponentPart := isExponentPart_of_isExponent isExponent
  cases isFraction with
  | none =>
      have nonempty : whole ≠ [] := fun empty => some empty rfl
      by_cases plain : exponent = []
      · simpa [plain] using isNumber_digits nonempty digits
      · simpa using IsNumber.whole ⟨nonempty, digits, fun leading =>
          (zero leading).imp_right fun none => absurd none.2 plain⟩ exponentPart
  | digits nonempty fractionDigits =>
      rw [List.append_assoc, List.cons_append]
      by_cases empty : whole = []
      · rw [empty]
        exact .fraction nonempty fractionDigits exponentPart
      · exact .point ⟨empty, digits, fun leading =>
          (zero leading).imp_right fun none => absurd none.1 (by simp)⟩ fractionDigits exponentPart

end Lexical

/-- A numeral ends in a digit. -/
theorem IsNumeral.last {text : List Char} (h : IsNumeral text) :
    ∃ c, text.getLast? = some c ∧ c.isDigit = true := by
  have ofDigits {ds : List Char} (nonempty : ds ≠ []) (digits : IsDigits ds) (front : List Char) :
      ∃ c, (front ++ ds).getLast? = some c ∧ c.isDigit = true := by
    refine ⟨ds.getLast nonempty, ?_, digits _ (List.getLast_mem nonempty)⟩
    rw [List.getLast?_append, List.getLast?_eq_some_getLast nonempty]
    rfl
  obtain ⟨whole, fraction, exponent, rfl, digits, isFraction, isExponent, some, -⟩ := h
  cases isExponent with
  | @digits sign ds _ nonempty exponentDigits =>
      simpa using ofDigits nonempty exponentDigits (whole ++ fraction ++ 'e' :: sign)
  | none =>
      cases isFraction with
      | @digits ds nonempty fractionDigits =>
          simpa using ofDigits nonempty fractionDigits (whole ++ ['.'])
      | none => simpa using ofDigits (fun empty => some empty rfl) digits []

end EcmaScribe
