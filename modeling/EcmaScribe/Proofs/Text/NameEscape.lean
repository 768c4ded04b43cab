/-
# EcmaScribe.Proofs.Text.NameEscape -- names in safe output

A name holds no backslash, no NUL and no `<`, so of the three passes only the one for non-ASCII
characters finds anything in it, and that one meets each character by itself: a sanitized name
is the sanitized characters one after another (`sanitize_name`, `sanitizeName_eq`).  The result
is plain ASCII, and sanitizing it once more, as the stream does, changes nothing
(`sanitize_of_plain`).

A character beyond U+FFFF is escaped in braces in the name of a variable and as two units in
any other name.
-/
import EcmaScribe.Proofs.Text.Identifier
import EcmaScribe.Proofs.Text.Sanitize

namespace EcmaScribe.Text

set_option autoImplicit false

/-- The escape of a whole code point. -/
def bracedEscape (c : Char) : List Char :=
  '\\' :: 'u' :: '\x7b' :: (hexShort .upper c.toNat ++ ['\x7d'])

/-- A character of a name in safe output; `braced` tells that characters beyond U+FFFF are
escaped in braces. -/
def nameChar (braced : Bool) (c : Char) : List Char :=
  if isAscii c then [c]
  else if braced && isAstral c then bracedEscape c
  else escapeUnits c

/-- A character of a name before the passes. -/
def preparedChar (braced : Bool) (c : Char) : List Char :=
  if braced && isAstral c then bracedEscape c else [c]

/-- What no pass looks for in a name. -/
def IsPlain (c : Char) : Prop := c ≠ '\\' ∧ c ≠ '\x00' ∧ c ≠ '<'

instance (c : Char) : Decidable (IsPlain c) :=
  inferInstanceAs (Decidable (c ≠ '\\' ∧ c ≠ '\x00' ∧ c ≠ '<'))

/-- A name is plain. -/
theorem isPlain_of_continues {k : IdentifierClass} {c : Char} (h : k.continues c = true) :
    IsPlain c := by
  cases ascii : isAscii c with
  | false =>
      refine ⟨?_, ?_, ?_⟩ <;>
        · rintro rfl
          cases ascii
  | true =>
      rw [k.continues_ascii c ascii] at h
      exact forall_ascii (P := fun c => (c.isAlphanum || c = '$' || c = '_') = true → IsPlain c)
        (by decide) ascii h

/-! ## Passes that find nothing -/

theorem nulPass_eq_self {text : List Char} (none : ∀ c ∈ text, c ≠ '\x00') :
    nulPass.apply text = text :=
  replaceAll_afterBackslashes_eq_self fun c member => by simpa [isNul] using none c member

theorem nonAsciiPass_eq_self {text : List Char} (ascii : ∀ c ∈ text, isAscii c = true) :
    nonAsciiPass.apply text = text :=
  replaceAll_afterBackslashes_eq_self fun c member => by simp [ascii c member]

theorem scriptTagPass_eq_self {text : List Char} (plain : ∀ c ∈ text, c ≠ '<') :
    scriptTagPass.apply text = text := by
  refine replaceAll_eq_self fun suffix inText => ?_
  show scriptTag suffix = none
  cases found : scriptTag suffix with
  | none => rfl
  | some m =>
      obtain ⟨slash, s, name, rest, -, joined, -⟩ := scriptTag_eq_some found
      exact absurd rfl (plain '<' (inText.subset (by simp [joined])))

/-- Plain ASCII text stays as it is. -/
theorem sanitize_of_plain {text : List Char}
    (plain : ∀ c ∈ text, isAscii c = true ∧ c ≠ '\x00' ∧ c ≠ '<') : sanitize text = text := by
  rw [sanitize_eq, nulPass_eq_self fun c member => (plain c member).2.1,
    nonAsciiPass_eq_self fun c member => (plain c member).1,
    scriptTagPass_eq_self fun c member => (plain c member).2.2]

/-! ## The pass for non-ASCII characters -/

/-- A non-ASCII character without a backslash before it is escaped by itself. -/
theorem nonAsciiPass_cons {c : Char} (foreign : isAscii c = false) (rest : List Char) :
    nonAsciiPass.apply (c :: rest) = escapeUnits c ++ nonAsciiPass.apply rest := by
  have noBackslash : c ≠ '\\' := by
    rintro rfl
    cases foreign
  have found : afterBackslashes (fun c => !isAscii c) (c :: rest) = some ⟨[c], [[], [c]]⟩ := by
    simp [afterBackslashes, noBackslash, foreign]
  show replaceAll (afterBackslashes fun c => !isAscii c) escapeNonAscii (c :: rest) =
    escapeUnits c ++ replaceAll (afterBackslashes fun c => !isAscii c) escapeNonAscii rest
  rw [replaceAll_of_some found]
  simp [escapeNonAscii, Match.group, keptBackslashes]

/-- ASCII text that ends in no backslash is copied, whatever comes after it. -/
theorem nonAsciiPass_append {text : List Char} (ascii : ∀ c ∈ text, isAscii c = true) {last : Char}
    (ends : text.getLast? = some last) (noBackslash : last ≠ '\\') (rest : List Char) :
    nonAsciiPass.apply (text ++ rest) = text ++ nonAsciiPass.apply rest := by
  have apart : Apart (fun c => (!isAscii c) = false ∧ c ≠ '\\') text rest := by
    refine .inl fun c isLast => ?_
    rw [ends, Option.mem_some] at isLast
    subst isLast
    exact ⟨by simp [ascii last (List.mem_of_getLast? ends)], noBackslash⟩
  have parts : nonAsciiPass.apply (text ++ rest) = _ := replaceAll_append_of_apart rfl apart
  rw [parts]
  exact congrArg (· ++ nonAsciiPass.apply rest) (nonAsciiPass_eq_self ascii)

/-! ## Escaped characters -/

/-- What a braced escape consists of. -/
theorem forall_mem_bracedEscape {P : Char → Prop}
    (escape : ∀ d ∈ ['\\', 'u', '\x7b', '\x7d'], P d)
    (digits : ∀ value < 16, P (hexDigit .upper value)) (c : Char) : ∀ d ∈ bracedEscape c, P d := by
  intro d member
  rcases List.mem_cons.1 member with rfl | member
  · exact escape _ (by simp)
  rcases List.mem_cons.1 member with rfl | member
  · exact escape _ (by simp)
  rcases List.mem_cons.1 member with rfl | member
  · exact escape _ (by simp)
  rcases List.mem_append.1 member with inDigits | closing
  · exact forall_mem_hexDigit digits _ _ d inDigits
  · rw [List.mem_singleton.1 closing]
    exact escape _ (by simp)

theorem getLast?_bracedEscape (c : Char) : (bracedEscape c).getLast? = some '\x7d' :=
  List.getLast?_concat (l := '\\' :: 'u' :: '\x7b' :: hexShort .upper c.toNat)

/-- What an escaped character consists of. -/
theorem forall_mem_nameChar {P : Char → Prop}
    (escape : ∀ d ∈ ['\\', 'u', '\x7b', '\x7d'], P d)
    (digits : ∀ value < 16, P (hexDigit .upper value)) {braced : Bool} {c : Char}
    (copied : isAscii c = true → P c) : ∀ d ∈ nameChar braced c, P d := by
  intro d member
  unfold nameChar at member
  split at member
  · rename_i ascii
    rw [List.mem_singleton.1 member]
    exact copied ascii
  · split at member
    · exact forall_mem_bracedEscape escape digits c d member
    · exact forall_mem_escapeUnits (escape _ (by simp)) (escape _ (by simp)) digits c d member

theorem exists_getLast_hexFixed (width n : Nat) : ∃ d,
    (hexFixed .upper (width + 1) n).getLast? = some d ∧ ∃ value < 16, d = hexDigit .upper value :=
  ⟨hexDigit .upper (n % 16), List.getLast?_concat, n % 16, Nat.mod_lt n (by decide), rfl⟩

/-- The units of a character end in a digit. -/
theorem exists_getLast_escapeUnits (c : Char) : ∃ d,
    (escapeUnits c).getLast? = some d ∧ ∃ value < 16, d = hexDigit .upper value := by
  have unit (front : List Char) (n : Nat) : ∃ d,
      (front ++ '\\' :: 'u' :: hexFixed .upper 4 n).getLast? = some d ∧
        ∃ value < 16, d = hexDigit .upper value := by
    obtain ⟨d, ends, value⟩ := exists_getLast_hexFixed 3 n
    refine ⟨d, ?_, value⟩
    rw [List.getLast?_append, List.getLast?_cons, List.getLast?_cons, ends]
    rfl
  unfold escapeUnits utf16Units
  split
  · simpa using unit [] c.toNat
  · simpa using unit ('\\' :: 'u' :: hexFixed .upper 4 _) _

theorem nonAsciiPass_prepared {braced : Bool} {c : Char} (noBackslash : c ≠ '\\')
    (rest : List Char) : nonAsciiPass.apply (preparedChar braced c ++ rest) =
      nameChar braced c ++ nonAsciiPass.apply rest := by
  cases ascii : isAscii c with
  | true =>
      have low : isAstral c = false := by
        simp only [isAscii, decide_eq_true_eq] at ascii
        simp only [isAstral, decide_eq_false_iff_not]
        omega
      have copied : nonAsciiPass.apply ([c] ++ rest) = [c] ++ nonAsciiPass.apply rest :=
        nonAsciiPass_append (by simpa using ascii) rfl noBackslash rest
      simpa [preparedChar, nameChar, ascii, low] using copied
  | false =>
      cases escaped : braced && isAstral c with
      | true =>
          have allAscii : ∀ d ∈ bracedEscape c, isAscii d = true :=
            forall_mem_bracedEscape (P := fun d => isAscii d = true) (by decide) (by decide) c
          simpa [preparedChar, nameChar, ascii, escaped] using
            nonAsciiPass_append allAscii (getLast?_bracedEscape c) (by decide) rest
      | false => simpa [preparedChar, nameChar, ascii, escaped] using nonAsciiPass_cons ascii rest

/-! ## Names -/

section

variable {name : List Char} (plain : ∀ c ∈ name, IsPlain c)

include plain

/-- The characters of a sanitized name. -/
theorem plain_flatMap_nameChar (braced : Bool) :
    ∀ d ∈ name.flatMap (nameChar braced), isAscii d = true ∧ d ≠ '\x00' ∧ d ≠ '<' := by
  intro d member
  obtain ⟨c, inName, inEscape⟩ := List.mem_flatMap.1 member
  exact forall_mem_nameChar (P := fun d => isAscii d = true ∧ d ≠ '\x00' ∧ d ≠ '<') (by decide)
    (by decide) (fun ascii => ⟨ascii, (plain c inName).2⟩) d inEscape

/-- Sanitizing escapes the characters that are not escaped yet, each by itself. -/
theorem sanitize_prepared (braced : Bool) :
    sanitize (name.flatMap (preparedChar braced)) = name.flatMap (nameChar braced) := by
  have noNul : ∀ d ∈ name.flatMap (preparedChar braced), d ≠ '\x00' := by
    intro d member
    obtain ⟨c, inName, inEscape⟩ := List.mem_flatMap.1 member
    unfold preparedChar at inEscape
    split at inEscape
    · exact forall_mem_bracedEscape (P := fun d => d ≠ '\x00') (by decide) (by decide) c d inEscape
    · rw [List.mem_singleton.1 inEscape]
      exact (plain c inName).2.1
  have escaped : nonAsciiPass.apply (name.flatMap (preparedChar braced)) =
      name.flatMap (nameChar braced) := by
    have noBackslash : ∀ c ∈ name, c ≠ '\\' := fun c member => (plain c member).1
    clear plain noNul
    induction name with
    | nil => rfl
    | cons c rest ih =>
        rw [List.flatMap_cons, List.flatMap_cons, nonAsciiPass_prepared (noBackslash c (by simp)),
          ih fun d member => noBackslash d (by simp [member])]
  rw [sanitize_eq, nulPass_eq_self noNul, escaped]
  exact scriptTagPass_eq_self fun d member => (plain_flatMap_nameChar plain braced d member).2.2

/-- Names that are not the names of variables. -/
theorem sanitize_name : sanitize name = name.flatMap (nameChar false) := by
  have same : name.flatMap (preparedChar false) = name := by
    have single : preparedChar false = fun c => [c] := rfl
    rw [single, List.flatMap_singleton']
  rw [← sanitize_prepared plain false, same]

/-- Names of variables. -/
theorem sanitizeName_eq : sanitizeName name = name.flatMap (nameChar true) := by
  have prepared : replaceAll (singleChar isAstral) escapeCodePoint name =
      name.flatMap (preparedChar true) := by
    clear plain
    induction name with
    | nil => rfl
    | cons c rest ih =>
        rw [List.flatMap_cons, ← ih]
        cases astral : isAstral c with
        | true =>
            rw [replaceAll_of_some (m := ⟨[c], []⟩) (by simp [singleChar, astral])]
            simp [preparedChar, astral, escapeCodePoint, bracedEscape]
        | false =>
            rw [replaceAll_of_none (by simp [singleChar, astral])]
            simp [preparedChar, astral]
  rw [sanitizeName, prepared, sanitize_prepared plain true]

end

/-! ## Names that spell a given word -/

theorem nameChar_of_ascii {c : Char} (ascii : isAscii c = true) (braced : Bool) :
    nameChar braced c = [c] := if_pos ascii

/-- Every escape holds a backslash. -/
theorem backslash_mem_nameChar {c : Char} (foreign : isAscii c = false) (braced : Bool) :
    '\\' ∈ nameChar braced c := by
  unfold nameChar
  rw [if_neg (by simp [foreign])]
  split
  · exact List.mem_cons_self
  · unfold escapeUnits utf16Units
    split <;> exact List.mem_cons_self

/-- An escaped name spells a word without backslashes only if it is that word. -/
theorem flatMap_nameChar_eq_iff {braced : Bool} {name word : List Char}
    (word_ascii : ∀ c ∈ word, isAscii c = true ∧ c ≠ '\\') :
    name.flatMap (nameChar braced) = word ↔ name = word := by
  induction name generalizing word with
  | nil => simp
  | cons c rest ih =>
      cases ascii : isAscii c with
      | true =>
          rw [List.flatMap_cons, nameChar_of_ascii ascii, List.singleton_append]
          cases word with
          | nil => simp
          | cons d word =>
              rw [List.cons.injEq, List.cons.injEq,
                ih fun e member => word_ascii e (List.mem_cons_of_mem _ member)]
      | false =>
          refine iff_of_false (fun same => ?_) fun same => ?_
          · have inWord : '\\' ∈ word := by
              rw [← same, List.flatMap_cons]
              exact List.mem_append_left _ (backslash_mem_nameChar ascii braced)
            exact (word_ascii _ inWord).2 rfl
          · rw [(word_ascii c (by simp [← same])).1] at ascii
            cases ascii

end EcmaScribe.Text
