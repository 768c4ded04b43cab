/-
# EcmaScribe.Proofs.Text.Cooked -- what the raw text of a literal stands for

The raw text between the delimiters of a string or of a piece of a template is evaluated to
UTF-16 units.  `cook` is that evaluation.  It is partial: a backslash with nothing behind it, a
malformed `\x` or `\u`, an octal escape, and a bare line end in a string stand for nothing.

* `cook_respelled`: respelling keeps the value.  An escape that a pass writes stands for the
  character that it spells (`cook_spelled`), and all that an escape looks ahead for (digits, a
  brace, the second half of a line end) is fixed.
* `cook_sanitize`: hence the sanitizer keeps the value of every text that has one.
-/
import EcmaScribe.Proofs.Text.NameReading
import EcmaScribe.Proofs.Text.Respelled

namespace EcmaScribe.Text

set_option autoImplicit false

open Lexical

/-! ## Escapes -/

/-- The literals that have raw text. -/
inductive RawKind
  | string
  /-- A piece of a template, which may hold line ends. -/
  | template
  deriving DecidableEq, Repr

/-- The units of a code point; a surrogate is its own unit. -/
def codePointUnits (n : Nat) : List Nat :=
  if n < 0x10000 then [n] else [0xD800 + (n - 0x10000) / 0x400, 0xDC00 + (n - 0x10000) % 0x400]

/-- Two digits behind `\x`. -/
def cookByte : List Char → Option (List Nat × List Char)
  | a :: b :: rest =>
      if isHexDigit a && isHexDigit b then some ([hexNumber [a, b]], rest) else none
  | _ => none

/-- Digits in braces, or four digits, behind `\u`. -/
def cookUnicode : List Char → Option (List Nat × List Char)
  | '\x7b' :: text =>
      let digits := text.takeWhile isHexDigit
      match text.dropWhile isHexDigit with
      | '\x7d' :: rest =>
          if digits.isEmpty || decide (0x10FFFF < hexNumber digits) then none
          else some (codePointUnits (hexNumber digits), rest)
      | _ => none
  | a :: b :: c :: d :: rest =>
      if [a, b, c, d].all isHexDigit then some ([hexNumber [a, b, c, d]], rest) else none
  | _ => none

/-- What a single character behind a backslash stands for. -/
def cookSingle : Char → List Nat
  | 'b' => [8]
  | 't' => [9]
  | 'n' => [10]
  | 'v' => [11]
  | 'f' => [12]
  | 'r' => [13]
  | c => utf16Units c

/-- Whether a carriage return is the first half of a line end. -/
def startsPair (c : Char) (rest : List Char) : Bool := c = '\x0d' && rest.head? = some '\n'

/-- What a backslash and the character after it stand for, and the text that they leave. -/
def cookEscape (c : Char) (text : List Char) : Option (List Nat × List Char) :=
  if c = 'x' then cookByte text
  else if c = 'u' then cookUnicode text
  else if isLineTerminator c then some ([], if startsPair c text then text.tail else text)
  else if c.isDigit then
    if c = '0' ∧ text.head?.any Char.isDigit = false then some ([0], text) else none
  else some (cookSingle c, text)

/-- What a character stands for that no backslash escapes.  A template reads every line end as a
line feed. -/
def cookBare (kind : RawKind) (c : Char) (rest : List Char) : Option (List Nat) :=
  if c = '\n' ∨ c = '\x0d' then
    match kind with
    | .string => none
    | .template => some (if startsPair c rest then [] else [10])
  else some (utf16Units c)

theorem length_le_of_cookUnicode {text rest : List Char} {units : List Nat}
    (h : cookUnicode text = some (units, rest)) : rest.length ≤ text.length := by
  unfold cookUnicode at h
  split at h
  · rename_i text
    have shorter := (List.dropWhile_suffix (l := text) isHexDigit).length_le
    dsimp only at h
    split at h
    · rename_i after closed
      rw [closed] at shorter
      split at h <;> cases h
      simp only [List.length_cons] at shorter ⊢
      omega
    · cases h
  · split at h <;> cases h
    simp only [List.length_cons]
    omega
  · cases h

theorem length_le_of_cookEscape {c : Char} {text rest : List Char} {units : List Nat}
    (h : cookEscape c text = some (units, rest)) : rest.length ≤ text.length := by
  unfold cookEscape at h
  split at h
  · unfold cookByte at h
    split at h
    · split at h <;> cases h
      simp only [List.length_cons]
      omega
    · cases h
  split at h
  · exact length_le_of_cookUnicode h
  split at h
  · cases h
    split <;> simp
  split at h
  · split at h <;> cases h
    exact Nat.le_refl _
  · cases h
    exact Nat.le_refl _

/-! ## The evaluation -/

/-- The units that raw text stands for. -/
def cook (kind : RawKind) : List Char → Option (List Nat)
  | [] => some []
  | ['\\'] => none
  | '\\' :: c :: text =>
      match _h : cookEscape c text with
      | some (units, rest) => (cook kind rest).map (units ++ ·)
      | none => none
  | c :: rest =>
      match cookBare kind c rest with
      | some units => (cook kind rest).map (units ++ ·)
      | none => none
termination_by text => text.length
decreasing_by
  · have := length_le_of_cookEscape _h
    simp only [List.length_cons]
    omega
  · simp

variable {kind : RawKind}

theorem cook_escape (c : Char) (text : List Char) :
    cook kind ('\\' :: c :: text) =
      (cookEscape c text).bind fun (units, rest) => (cook kind rest).map (units ++ ·) := by
  rw [cook]
  split <;> rename_i read <;> rw [read] <;> rfl

theorem cook_bare {c : Char} (noBackslash : c ≠ '\\') (rest : List Char) :
    cook kind (c :: rest) =
      (cookBare kind c rest).bind fun units => (cook kind rest).map (units ++ ·) := by
  rw [cook.eq_4 kind c rest (fun same _ => noBackslash same) fun _ _ same _ => noBackslash same]
  split <;> rename_i read <;> rw [read] <;> rfl

/-! ## Escapes keep their place -/

theorem isFixed_hexDigit {c : Char} (digit : isHexDigit c = true) : IsFixed c :=
  forall_hexDigit (P := IsFixed) (by decide) digit

theorem isFixed_digit {c : Char} (digit : c.isDigit = true) : IsFixed c :=
  forall_digit (P := IsFixed) (by decide) digit

variable {t u rest : List Char} {units : List Nat}

theorem cookByte_respelled (h : Respelled t u) (cooked : cookByte t = some (units, rest)) :
    ∃ more, cookByte u = some (units, more) ∧ Respelled rest more := by
  unfold cookByte at cooked
  split at cooked
  · rename_i a b behind
    split at cooked
    · rename_i digits
      cases cooked
      obtain ⟨first, second⟩ : isHexDigit a = true ∧ isHexDigit b = true := by simpa using digits
      have both : ∀ c ∈ [a, b], IsFixed c := by
        simpa using ⟨isFixed_hexDigit first, isFixed_hexDigit second⟩
      obtain ⟨v, rfl, more⟩ := Respelled.of_fixed_append both h
      exact ⟨v, if_pos digits, more⟩
    · cases cooked
  · cases cooked

/-- Digits up to a brace are found where they stand. -/
theorem takeWhile_braced {digits : List Char} (all : ∀ c ∈ digits, isHexDigit c = true)
    (behind : List Char) :
    (digits ++ '\x7d' :: behind).takeWhile isHexDigit = digits ∧
      (digits ++ '\x7d' :: behind).dropWhile isHexDigit = '\x7d' :: behind := by
  have stops : isHexDigit '\x7d' = false := rfl
  constructor
  · rw [List.takeWhile_append_of_pos all, List.takeWhile_cons_of_neg (by simp [stops]),
      List.append_nil]
  · rw [List.dropWhile_append_of_pos all, List.dropWhile_cons_of_neg (by simp [stops])]

theorem cookUnicode_respelled (h : Respelled t u) (cooked : cookUnicode t = some (units, rest)) :
    ∃ more, cookUnicode u = some (units, more) ∧ Respelled rest more := by
  unfold cookUnicode at cooked
  split at cooked
  · rename_i text
    dsimp only at cooked
    split at cooked
    · rename_i behind closed
      have digits : ∀ c ∈ text.takeWhile isHexDigit, isHexDigit c = true :=
        fun c member => List.mem_takeWhile_imp member
      have joined : text = text.takeWhile isHexDigit ++ '\x7d' :: behind := by
        rw [← closed, List.takeWhile_append_dropWhile]
      generalize text.takeWhile isHexDigit = front at digits joined cooked
      subst joined
      have fixed : ∀ c ∈ '\x7b' :: (front ++ ['\x7d']), IsFixed c := by
        have inDigits : ∀ c ∈ front, IsFixed c := fun c member =>
          isFixed_hexDigit (digits c member)
        simp only [List.mem_cons, List.mem_append, List.not_mem_nil, or_false]
        rintro c (rfl | member | rfl)
        · decide
        · exact inDigits c member
        · decide
      obtain ⟨v, rfl, more⟩ := Respelled.of_fixed_append fixed (by simpa using h)
      obtain ⟨taken, dropped⟩ := takeWhile_braced digits v
      split at cooked
      · cases cooked
      · rename_i valid
        cases cooked
        exact ⟨v, by simp [cookUnicode, taken, dropped, valid], more⟩
    · cases cooked
  · rename_i a b c d behind noBrace
    split at cooked
    · rename_i digits
      cases cooked
      have all : ∀ e ∈ [a, b, c, d], IsFixed e := fun e member =>
        isFixed_hexDigit (List.all_eq_true.1 digits e member)
      obtain ⟨v, rfl, more⟩ := Respelled.of_fixed_append all h
      exact ⟨v, (cookUnicode.eq_2 a b c d v noBrace).trans (if_pos digits), more⟩
    · cases cooked
  · cases cooked

theorem startsPair_respelled (h : Respelled t u) (c : Char) : startsPair c u = startsPair c t := by
  have same := h.head?_eq_iff (c := '\n') (by decide)
  simp only [startsPair]
  rw [Bool.eq_iff_iff]
  simp [same]

theorem any_isDigit_respelled (h : Respelled t u) :
    u.head?.any Char.isDigit = t.head?.any Char.isDigit := by
  rw [Bool.eq_iff_iff]
  simp only [Option.any_eq_true]
  constructor <;> rintro ⟨d, first, digit⟩
  · exact ⟨d, (h.head?_eq_iff (isFixed_digit digit)).1 first, digit⟩
  · exact ⟨d, (h.head?_eq_iff (isFixed_digit digit)).2 first, digit⟩

/-- An escape stands for the same before a respelled text. -/
theorem cookEscape_respelled {c : Char} (h : Respelled t u)
    (cooked : cookEscape c t = some (units, rest)) :
    ∃ more, cookEscape c u = some (units, more) ∧ Respelled rest more := by
  unfold cookEscape at cooked ⊢
  split at cooked
  · rename_i byte
    simpa only [if_pos byte] using cookByte_respelled h cooked
  rename_i noByte
  split at cooked
  · rename_i unicode
    simpa only [if_neg noByte, if_pos unicode] using cookUnicode_respelled h cooked
  rename_i noUnicode
  rw [if_neg noByte, if_neg noUnicode]
  split at cooked
  · rename_i lineEnd
    cases cooked
    rw [if_pos lineEnd, startsPair_respelled h]
    refine ⟨_, rfl, ?_⟩
    split
    · rename_i pair
      -- a pair leaves what is behind its line feed
      obtain ⟨behind, rfl⟩ := List.head?_eq_some_iff.1 (show t.head? = some '\n' by
        simp only [startsPair, Bool.and_eq_true, decide_eq_true_eq] at pair
        exact pair.2)
      obtain ⟨v, rfl, later⟩ := h.of_fixed (by decide)
      exact later
    · exact h
  rename_i noLineEnd
  rw [if_neg noLineEnd]
  split at cooked
  · rename_i digit
    rw [if_pos digit, any_isDigit_respelled h]
    split at cooked
    · rename_i zero
      cases cooked
      exact ⟨u, if_pos zero, h⟩
    · cases cooked
  · rename_i noDigit
    cases cooked
    exact ⟨u, by rw [if_neg noDigit], h⟩

/-! ## Escapes that the passes write -/

/-- Four digits stand for a unit. -/
theorem cook_unit {n : Nat} (small : n < 0x10000) (rest : List Char) :
    cook kind ('\\' :: 'u' :: (hexFixed .upper 4 n ++ rest)) = (cook kind rest).map ([n] ++ ·) := by
  have four := length_hexFixed 4 n
  have digits := all_isHexDigit_hexFixed 4 n
  have number := hexNumber_hexFixed 4 n
  rw [Nat.mod_eq_of_lt (by simpa using small)] at number
  generalize hexFixed .upper 4 n = text at four digits number
  obtain ⟨a, b, c, d, rfl⟩ : ∃ a b c d, text = [a, b, c, d] := by
    match text, four with
    | [a, b, c, d], _ => exact ⟨a, b, c, d, rfl⟩
  have other : a ≠ '\x7b' := by
    rintro rfl
    exact absurd (digits '\x7b' (by simp)) (by decide)
  have read : cookUnicode ([a, b, c, d] ++ rest) = some ([n], rest) := by
    show cookUnicode (a :: b :: c :: d :: rest) = _
    rw [cookUnicode.eq_2 a b c d rest fun same => other same,
      if_pos (List.all_eq_true.2 digits), number]
  rw [cook_escape, cookEscape, if_neg (by decide), if_pos rfl, read]
  rfl

/-- **An escape that a pass writes** stands for the character that it spells. -/
theorem cook_spelled {c : Char} {e : List Char} (spells : Spells c e) (rest : List Char) :
    cook kind (e ++ rest) = (cook kind rest).map (utf16Units c ++ ·) := by
  cases spells with
  | nul | small | capital =>
      rw [List.cons_append, List.cons_append, cook_escape]
      rfl
  | units =>
      have valid : c.toNat < 0x110000 := by
        rcases c.valid with below | above
        · exact Nat.lt_trans below (by decide)
        · exact above.2
      unfold escapeUnits utf16Units
      by_cases single : c.toNat < 0x10000
      · rw [if_pos single, List.flatMap_singleton]
        exact cook_unit single rest
      · rw [if_neg single, List.flatMap_cons, List.flatMap_singleton, List.append_assoc]
        refine (cook_unit (by omega) _).trans ?_
        rw [List.cons_append, List.cons_append, cook_unit (by omega), Option.map_map]
        rfl

/-- What a pass may spell is no line end and, behind a backslash, stands for itself. -/
theorem Spells.cookBare {c : Char} {e : List Char} (spells : Spells c e) (rest : List Char) :
    cookBare kind c rest = some (utf16Units c) := by
  cases spells with
  | nul | small | capital => rfl
  | units foreign =>
      refine if_neg ?_
      rintro (rfl | rfl) <;> cases foreign

theorem Spells.cookEscape {c : Char} {e : List Char} (spells : Spells c e)
    (noSeparator : isLineSeparator c = false) (rest : List Char) :
    cookEscape c rest = some (utf16Units c, rest) := by
  cases spells with
  | nul | small | capital => rfl
  | units foreign =>
      have differs {d : Char} (ascii : isAscii d = true) : c ≠ d := by
        rintro rfl
        rw [foreign] at ascii
        cases ascii
      have noDigit : c.isDigit = false := by
        by_contra digit
        have fixed := isFixed_digit (by simpa using digit)
        rw [fixed.1] at foreign
        cases foreign
      have noLineEnd : isLineTerminator c = false := by
        simp [isLineTerminator, differs (d := '\n') rfl, differs (d := '\x0d') rfl, noSeparator]
      have single : cookSingle c = utf16Units c := by
        unfold cookSingle
        split <;> first | rfl | cases foreign
      simp [Text.cookEscape, differs (d := 'x') rfl, differs (d := 'u') rfl, noLineEnd, noDigit,
        single]

/-! ## Values are kept -/

/-- Text with a value, a character or an escape at a time. -/
theorem cook_bare_eq_some {c : Char} (noBackslash : c ≠ '\\') :
    cook kind (c :: t) = some units ↔ ∃ first others, cookBare kind c t = some first ∧
      cook kind t = some others ∧ units = first ++ others := by
  rw [cook_bare noBackslash, Option.bind_eq_some_iff]
  simp only [Option.map_eq_some_iff]
  constructor
  · rintro ⟨first, bare, others, later, rfl⟩
    exact ⟨first, others, bare, later, rfl⟩
  · rintro ⟨first, others, bare, later, rfl⟩
    exact ⟨first, bare, others, later, rfl⟩

theorem cook_escape_eq_some {c : Char} :
    cook kind ('\\' :: c :: t) = some units ↔ ∃ first rest others,
      cookEscape c t = some (first, rest) ∧ cook kind rest = some others ∧
        units = first ++ others := by
  rw [cook_escape, Option.bind_eq_some_iff]
  simp only [Option.map_eq_some_iff, Prod.exists]
  constructor
  · rintro ⟨first, rest, escape, others, later, rfl⟩
    exact ⟨first, rest, others, escape, later, rfl⟩
  · rintro ⟨first, rest, others, escape, later, rfl⟩
    exact ⟨first, rest, escape, others, later, rfl⟩

/-- **Respelling keeps the value** of every text that has one. -/
theorem cook_respelled (h : Respelled t u) (cooked : cook kind t = some units) :
    cook kind u = some units := by
  induction hn : t.length using Nat.strongRecOn generalizing t u units with
  | ind n ih =>
      have kept {t' u' : List Char} {others : List Nat} (h' : Respelled t' u')
          (cooked' : cook kind t' = some others) (shorter : t'.length < t.length) :
          cook kind u' = some others := ih _ (hn ▸ shorter) h' cooked' rfl
      cases h with
      | nil => exact cooked
      | dangling => exact cooked
      | @copied c t u noBackslash more =>
          obtain ⟨first, others, bare, later, rfl⟩ := (cook_bare_eq_some noBackslash).1 cooked
          have same : cookBare kind c u = cookBare kind c t := by
            simp only [cookBare, startsPair_respelled more]
          exact (cook_bare_eq_some noBackslash).2
            ⟨first, others, same.trans bare, kept more later (by simp), rfl⟩
      | @escaped c t u more =>
          obtain ⟨first, rest, others, escape, later, rfl⟩ := cook_escape_eq_some.1 cooked
          obtain ⟨rest', escape', respelled⟩ := cookEscape_respelled more escape
          have bound := length_le_of_cookEscape escape
          refine cook_escape_eq_some.2 ⟨first, rest', others, escape', kept respelled later ?_, rfl⟩
          simp only [List.length_cons]
          omega
      | @spelled c e t u spells more =>
          obtain ⟨first, others, bare, later, rfl⟩ :=
            (cook_bare_eq_some spells.ne_backslash).1 cooked
          rw [spells.cookBare] at bare
          cases bare
          rw [cook_spelled spells, kept more later (by simp)]
          rfl
      | @folded c e t u spells noSeparator more =>
          obtain ⟨first, rest, others, escape, later, rfl⟩ := cook_escape_eq_some.1 cooked
          rw [spells.cookEscape noSeparator] at escape
          cases escape
          rw [cook_spelled spells, kept more later (by simp only [List.length_cons]; omega)]
          rfl
      | @continued c t u separator more =>
          obtain ⟨first, rest, others, escape, later, rfl⟩ := cook_escape_eq_some.1 cooked
          have lineEnd : cookEscape c t = some ([], t) := by
            simp only [isLineSeparator, Bool.or_eq_true, decide_eq_true_eq] at separator
            rcases separator with rfl | rfl <;> rfl
          rw [lineEnd] at escape
          cases escape
          exact cook_escape_eq_some.2
            ⟨[], u, others, rfl, kept more later (by simp only [List.length_cons]; omega), rfl⟩

/-- **The sanitizer keeps the value** of raw text. -/
theorem cook_sanitize (kind : RawKind) {text : List Char} {units : List Nat}
    (cooked : cook kind text = some units) : cook kind (sanitize text) = some units :=
  sanitize_keeps (fun _ _ respelled => cook_respelled respelled) cooked

/-- A continued line, a folded and an unfolded escape, an astral character, a tag, and a pair
that is read as one line end. -/
def hostileRaw : List Char :=
  "a\\\u2028\\\u00e9\\\\\u2029\\\x00𠀀<script\x0d\n\\\\</SCRIPT\\0>\\x41\\u\x7b1F600\x7d".toList

theorem cook_sanitize_hostileRaw : cook .template hostileRaw =
      some [97, 0xE9, 92, 0x2029, 0, 0xD840, 0xDC00, 60, 115, 99, 114, 105, 112, 116, 10, 92, 60,
        47, 83, 67, 82, 73, 80, 84, 0, 62, 65, 0xD83D, 0xDE00] ∧
    cook .template (sanitize hostileRaw) =
      some [97, 0xE9, 92, 0x2029, 0, 0xD840, 0xDC00, 60, 115, 99, 114, 105, 112, 116, 10, 92, 60,
        47, 83, 67, 82, 73, 80, 84, 0, 62, 65, 0xD83D, 0xDE00] :=
  have cooked : cook .template hostileRaw =
      some [97, 0xE9, 92, 0x2029, 0, 0xD840, 0xDC00, 60, 115, 99, 114, 105, 112, 116, 10, 92, 60,
        47, 83, 67, 82, 73, 80, 84, 0, 62, 65, 0xD83D, 0xDE00] := by decide +kernel
  ⟨cooked, cook_sanitize .template cooked⟩

end EcmaScribe.Text
