/-
# EcmaScribe.Proofs.Text.StringValue -- string literals denote their value

A string literal is read as one token, on one line, and evaluates to the units of its value.
The writer has a case for every kind of character; the sanitizer then goes over the whole
literal, delimiters and all.

* `standsFor_literalChar`: what is written for a character evaluates to its units.
* `Respelled.isStringBody`: respelling keeps the grammar of a string.  The escapes that it writes
  are parts of a string, and all that a part is made of besides is fixed.
* `exists_denotes_respelled`: the closing delimiter stays behind the body, since no backslash is
  left in front of it.  So respelling keeps what a literal denotes.

The delimiter is the one of which the value holds fewer: `delimiterEscapes` counts what the
writer has to escape on its account.
-/
import EcmaScribe.Proofs.Text.Cooked

namespace EcmaScribe.Text

set_option autoImplicit false

open Lexical

/-- Text without a line end. -/
def OneLine (text : List Char) : Prop := ∀ c ∈ text, isLineTerminator c = false

/-- The body of a literal that is read as one string on one line, with the given value. -/
structure Denotes (quote : Char) (units : List Nat) (body : List Char) : Prop where
  isBody : IsStringBody quote body
  oneLine : OneLine body
  value : cook .string body = some units

/-- How many quotes of a value are written with a backslash if the literal is put between the
given ones. -/
def delimiterEscapes (quote : Char) (value : List Char) : Nat :=
  value.countP fun c => decide (IsQuote c) && (literalChar quote c).head? == some '\\'

/-! ## The literal as it is written -/

/-- The hexadecimal digits of an escape end no line. -/
theorem isLineTerminator_hexDigit :
    ∀ value < 16, isLineTerminator (hexDigit .upper value) = false := by
  decide

/-- Every character is written on one line. -/
theorem oneLine_literalChar {quote : Char} (isQuote : IsQuote quote) (c : Char) :
    OneLine (literalChar quote c) := by
  have two {d : Char} (known : isLineTerminator d = false) : OneLine ['\\', d] := by
    simpa [OneLine] using ⟨rfl, known⟩
  have escape (n : Nat) : OneLine ('\\' :: 'u' :: hexFixed .upper 4 n) := by
    simp only [OneLine, List.forall_mem_cons]
    exact ⟨rfl, rfl, forall_mem_hexDigit isLineTerminator_hexDigit 4 n⟩
  unfold literalChar
  refine iteInduction (fun _ => two rfl) fun _ => ?_
  refine iteInduction (fun _ => two rfl) fun _ => ?_
  refine iteInduction (fun _ => two rfl) fun noLineFeed => ?_
  refine iteInduction (fun _ => two rfl) fun _ => ?_
  refine iteInduction (fun _ => two rfl) fun _ => ?_
  refine iteInduction (fun _ => two rfl) fun noReturn => ?_
  refine iteInduction (fun _ => two rfl) fun _ => ?_
  refine iteInduction (fun _ => escape _) fun noSeparator => ?_
  refine iteInduction (fun _ => by simp [OneLine]; decide) fun _ => ?_
  refine iteInduction (fun same => ?_) fun _ => ?_
  · subst same
    rcases isQuote with rfl | rfl <;> exact two rfl
  refine iteInduction (fun _ => escape _) fun _ => ?_
  simpa [OneLine, isLineTerminator, isLineSeparator, noLineFeed, noReturn] using noSeparator

/-- Text in a string that evaluates to the given units, whatever comes after it. -/
def StandsFor (units : List Nat) (text : List Char) : Prop :=
  ∀ rest, cook .string (text ++ rest) = (cook .string rest).map (units ++ ·)

theorem standsFor_escape {c : Char} {units : List Nat}
    (escape : ∀ rest, cookEscape c rest = some (units, rest)) : StandsFor units ['\\', c] := by
  intro rest
  refine (cook_escape c rest).trans ?_
  rw [escape]
  rfl

/-- **What is written for a character** stands for its units. -/
theorem standsFor_literalChar {quote : Char} (isQuote : IsQuote quote) (c : Char) :
    StandsFor (utf16Units c) (literalChar quote c) := by
  have letter {d e : Char} (same : c = d) (escape : ∀ rest, cookEscape e rest =
      some (utf16Units d, rest)) : StandsFor (utf16Units c) ['\\', e] :=
    same ▸ standsFor_escape escape
  have unit (small : c.toNat < 0x10000) :
      StandsFor (utf16Units c) ('\\' :: 'u' :: hexFixed .upper 4 c.toNat) := by
    rw [utf16Units, if_pos small]
    exact cook_unit small
  unfold literalChar
  refine iteInduction (fun same => letter same fun _ => rfl) fun _ => ?_
  refine iteInduction (fun same => letter same fun _ => rfl) fun _ => ?_
  refine iteInduction (fun same => letter same fun _ => rfl) fun noLineFeed => ?_
  refine iteInduction (fun same => letter same fun _ => rfl) fun _ => ?_
  refine iteInduction (fun same => letter same fun _ => rfl) fun _ => ?_
  refine iteInduction (fun same => letter same fun _ => rfl) fun noReturn => ?_
  refine iteInduction (fun same => letter same fun _ => rfl) fun noBackslash => ?_
  refine iteInduction (fun separator => unit ?_) fun _ => ?_
  · rcases separator with rfl | rfl <;> decide
  refine iteInduction (fun same => same ▸ cook_spelled .nul) fun _ => ?_
  refine iteInduction (fun same => ?_) fun _ => ?_
  · refine standsFor_escape ?_
    rw [same]
    rcases isQuote with rfl | rfl <;> exact fun _ => rfl
  refine iteInduction (fun control => unit ?_) fun _ => ?_
  · rcases control with small | rfl
    · omega
    · decide
  intro rest
  have bare : cookBare .string c rest = some (utf16Units c) :=
    if_neg (by simp [noLineFeed, noReturn])
  rw [List.singleton_append, cook_bare noBackslash, bare]
  rfl

/-- The body of a literal denotes the value between either delimiter. -/
theorem denotes_literalChars {quote : Char} (isQuote : IsQuote quote) (value : List Char) :
    Denotes quote (value.flatMap utf16Units) (value.flatMap (literalChar quote)) := by
  induction value with
  | nil => exact ⟨.nil, by simp [OneLine], by rw [List.flatMap_nil, cook]; rfl⟩
  | cons c value ih =>
      simp only [List.flatMap_cons]
      refine ⟨.cons (isStringPart_literalChar isQuote c) ih.isBody, ?_, ?_⟩
      · intro d member
        rcases List.mem_append.1 member with here | later
        · exact oneLine_literalChar isQuote c d here
        · exact ih.oneLine d later
      · rw [standsFor_literalChar isQuote, ih.value]
        rfl

/-! ## The literal as it is respelled -/

section Respelling

variable {quote : Char} {t u : List Char}

theorem isStringBody_part {part : List Char} (isPart : IsStringPart quote part) :
    IsStringBody quote part := by
  simpa [IsStringBody] using Repeated.cons isPart .nil

/-- An escape that a pass writes is part of a string. -/
theorem Spells.isStringBody {c : Char} {e : List Char} (spells : Spells c e) :
    IsStringBody quote e := by
  cases spells with
  | nul | small | capital => exact isStringBody_part (.hexadecimal (by decide) (by decide))
  | units =>
      unfold escapeUnits
      generalize utf16Units c = units
      induction units with
      | nil => exact .nil
      | cons unit units ih => exact .cons (.unicode (isEscape_hexFixed unit)) ih

theorem Spells.oneLine {c : Char} {e : List Char} (spells : Spells c e) :
    OneLine e := by
  cases spells with
  | nul | small | capital =>
      unfold OneLine
      decide
  | units =>
      exact forall_mem_escapeUnits (P := fun d => isLineTerminator d = false) rfl rfl
        isLineTerminator_hexDigit c

namespace Respelled

/-- A backslash keeps the fixed character behind it. -/
theorem of_escape {c : Char} (fixed : IsFixed c) (h : Respelled ('\\' :: c :: t) u) :
    ∃ v, u = '\\' :: c :: v ∧ Respelled t v := by
  have noSeparator : isLineSeparator c = false := by
    simp only [isLineSeparator, Bool.or_eq_false_iff, decide_eq_false_iff_not]
    constructor <;> rintro rfl <;> exact absurd fixed (by decide)
  cases h with
  | copied noBackslash => exact absurd rfl noBackslash
  | escaped more => exact ⟨_, rfl, more⟩
  | spelled spells => exact absurd rfl spells.ne_backslash
  | folded spells => exact absurd fixed spells.not_isFixed
  | continued separator => simp [noSeparator] at separator

/-- One part of a string is respelled as parts of a string. -/
theorem of_stringPart {part : List Char} (isPart : IsStringPart quote part)
    (h : Respelled (part ++ t) u) :
    ∃ parts v, u = parts ++ v ∧ IsStringBody quote parts ∧ Respelled t v := by
  have escape {c : Char} {v : List Char} (digits : List Char) (fixed : IsFixed c)
      (isDigits : ∀ d ∈ digits, IsFixed d) (isPart : IsStringPart quote ('\\' :: c :: digits))
      (h : Respelled ('\\' :: c :: (digits ++ t)) v) :
      ∃ parts w, v = parts ++ w ∧ IsStringBody quote parts ∧ Respelled t w := by
    obtain ⟨v, rfl, more⟩ := h.of_escape fixed
    obtain ⟨w, rfl, later⟩ := more.of_fixed_append isDigits
    exact ⟨_, w, rfl, isStringBody_part isPart, later⟩
  cases isPart with
  | @plain c other noEscape noBreak =>
      obtain ⟨front, v, rfl, rfl | spells, more⟩ := of_plain noEscape h
      · exact ⟨[c], v, rfl, isStringBody_part (.plain other noEscape noBreak), more⟩
      · exact ⟨front, v, rfl, spells.isStringBody, more⟩
  | @escaped c noBreak noDigit noMark =>
      cases h with
      | copied noBackslash => exact absurd rfl noBackslash
      | escaped more =>
          exact ⟨['\\', c], _, rfl, isStringBody_part (.escaped noBreak noDigit noMark), more⟩
      | spelled spells => exact absurd rfl spells.ne_backslash
      | folded spells _ more => exact ⟨_, _, rfl, spells.isStringBody, more⟩
      | continued separator => simp [isLineTerminator, separator] at noBreak
  | @octal c digit =>
      exact escape [] (isFixed_digit (isDigit_of_isOctalDigit digit)) (by simp) (.octal digit) h
  | @hexadecimal c d first second =>
      refine escape [c, d] (by decide) ?_ (.hexadecimal first second) h
      simpa using ⟨isFixed_hexDigit first, isFixed_hexDigit second⟩
  | unicode isEscape =>
      cases isEscape with
      | @fixed a b c d digits =>
          exact escape [a, b, c, d] (by decide) (fun e member => isFixed_hexDigit (digits e member))
            (.unicode (.fixed digits)) h
      | @braced ds nonempty digits =>
          refine escape ('\x7b' :: (ds ++ ['\x7d'])) (by decide) ?_
            (.unicode (.braced nonempty digits)) h
          have isDigits : ∀ d ∈ ds, IsFixed d := fun d member => isFixed_hexDigit (digits d member)
          simp only [List.mem_cons, List.mem_append, List.not_mem_nil, or_false]
          rintro d (rfl | member | rfl)
          · decide
          · exact isDigits d member
          · decide
  | @continued c lineBreak =>
      cases h with
      | copied noBackslash => exact absurd rfl noBackslash
      | escaped more => exact ⟨['\\', c], _, rfl, isStringBody_part (.continued lineBreak), more⟩
      | spelled spells => exact absurd rfl spells.ne_backslash
      | folded spells _ more => exact ⟨_, _, rfl, spells.isStringBody, more⟩
      | continued _ more => exact ⟨['\\', '\n'], _, rfl, isStringBody_part (.continued rfl), more⟩
  | continuedPair => exact escape ['\n'] (by decide) (by decide) .continuedPair h

/-- **Respelling keeps the grammar** of a string. -/
theorem isStringBody (isBody : IsStringBody quote t) (h : Respelled t u) :
    IsStringBody quote u := by
  induction isBody generalizing u with
  | nil =>
      cases h
      exact .nil
  | cons isPart _ ih =>
      obtain ⟨parts, v, rfl, isParts, more⟩ := of_stringPart isPart h
      exact isParts.append (ih more)

/-- Respelling writes no line end but behind a backslash that continues a line. -/
theorem oneLine (h : Respelled t u) (line : OneLine t) : OneLine u := by
  unfold OneLine at line ⊢
  induction h with
  | nil => exact line
  | dangling => exact line
  | copied _ _ ih =>
      simp only [List.forall_mem_cons] at line ⊢
      exact ⟨line.1, ih line.2⟩
  | escaped _ ih =>
      simp only [List.forall_mem_cons] at line ⊢
      exact ⟨rfl, line.2.1, ih line.2.2⟩
  | spelled spells _ ih =>
      rw [List.forall_mem_append]
      exact ⟨spells.oneLine, ih fun c member => line c (by simp [member])⟩
  | folded spells _ _ ih =>
      rw [List.forall_mem_append]
      exact ⟨spells.oneLine, ih fun c member => line c (by simp [member])⟩
  | @continued c t u separator =>
      have noBreak := line c (by simp)
      simp [isLineTerminator, separator] at noBreak

/-- A closing delimiter stays behind the body. -/
theorem of_closed (isQuote : IsQuote quote) (closed : afterQuote quote (t ++ [quote]) = some [])
    (h : Respelled (t ++ [quote]) u) : ∃ body, u = body ++ [quote] ∧ Respelled t body := by
  have fixed : IsFixed quote := by rcases isQuote with rfl | rfl <;> decide
  induction t using escape_induction generalizing u with
  | nil =>
      obtain ⟨v, rfl, more⟩ := of_fixed fixed h
      cases more
      exact ⟨[], rfl, .nil⟩
  | dangling => cases closed
  | escaped c rest ih =>
      replace closed : afterQuote quote (rest ++ [quote]) = some [] := closed
      cases h with
      | copied noBackslash => exact absurd rfl noBackslash
      | escaped more =>
          obtain ⟨body, rfl, later⟩ := ih closed more
          exact ⟨'\\' :: c :: body, rfl, later.escaped⟩
      | spelled spells => exact absurd rfl spells.ne_backslash
      | folded spells noSeparator more =>
          obtain ⟨body, rfl, later⟩ := ih closed more
          exact ⟨_ ++ body, by simp, later.folded spells noSeparator⟩
      | continued separator more =>
          obtain ⟨body, rfl, later⟩ := ih closed more
          exact ⟨'\\' :: '\n' :: body, rfl, later.continued separator⟩
  | char c rest noEscape ih =>
      have other : c ≠ quote := by
        rintro rfl
        rw [List.cons_append, afterQuote_quote isQuote] at closed
        simp at closed
      rw [List.cons_append, afterQuote_cons other noEscape] at closed
      obtain ⟨front, v, rfl, copied | spells, more⟩ := of_plain noEscape h
      · obtain ⟨body, rfl, later⟩ := ih closed more
        exact ⟨c :: body, by simp [copied], later.copied noEscape⟩
      · obtain ⟨body, rfl, later⟩ := ih closed more
        exact ⟨front ++ body, by simp, later.spelled spells⟩

/-- Both delimiters stay in their place. -/
theorem of_quoted (isQuote : IsQuote quote) (isBody : IsStringBody quote t)
    (h : Respelled (quote :: (t ++ [quote])) u) :
    ∃ body, u = quote :: (body ++ [quote]) ∧ Respelled t body := by
  have fixed : IsFixed quote := by rcases isQuote with rfl | rfl <;> decide
  obtain ⟨v, rfl, more⟩ := h.of_fixed fixed
  obtain ⟨body, rfl, inside⟩ := more.of_closed isQuote (afterQuote_body isQuote isBody [])
  exact ⟨body, rfl, inside⟩

/-- **A string stays a string.** -/
theorem isString (h : Respelled t u) (isString : IsString t) : IsString u := by
  cases isString with
  | quoted isQuote isBody =>
      obtain ⟨body, rfl, inside⟩ := h.of_quoted isQuote isBody
      exact .quoted isQuote (inside.isStringBody isBody)

end Respelled

end Respelling

/-- Respelling a literal keeps its delimiters and what it denotes. -/
theorem exists_denotes_respelled {quote : Char} (isQuote : IsQuote quote) {units : List Nat}
    {t u : List Char} (respelled : Respelled t u)
    (h : ∃ body, t = quote :: (body ++ [quote]) ∧ Denotes quote units body) :
    ∃ body, u = quote :: (body ++ [quote]) ∧ Denotes quote units body := by
  obtain ⟨body, rfl, denotes⟩ := h
  obtain ⟨body', rfl, inside⟩ := respelled.of_quoted isQuote denotes.isBody
  exact ⟨body', rfl, inside.isStringBody denotes.isBody, inside.oneLine denotes.oneLine,
    cook_respelled inside denotes.value⟩

/-- In every spelling the literal of a value denotes it. -/
theorem exists_denotes_literalText (spelling : Spelling) (value : List Char) :
    ∃ body, spelling.literalText (stringLiteral value) =
        delimiterFor value :: (body ++ [delimiterFor value]) ∧
      Denotes (delimiterFor value) (value.flatMap utf16Units) body := by
  have isQuote : IsQuote (delimiterFor value) := delimiterFor_cases value
  have plain : ∃ body, stringLiteral value = delimiterFor value :: (body ++ [delimiterFor value]) ∧
      Denotes (delimiterFor value) (value.flatMap utf16Units) body :=
    ⟨_, rfl, denotes_literalChars isQuote value⟩
  cases spelling with
  | plain => exact plain
  | webSafe =>
      exact sanitize_keeps (fun _ _ respelled => exists_denotes_respelled isQuote respelled) plain

/-- Text between delimiters stays the body of a string in every spelling. -/
theorem isStringBody_literalText (spelling : Spelling) {quote : Char} {raw : List Char}
    (isBody : IsStringBody quote raw) : IsStringBody quote (spelling.literalText raw) := by
  cases spelling with
  | plain => exact isBody
  | webSafe => exact sanitize_keeps (fun _ _ respelled => respelled.isStringBody) isBody

/-! ## The delimiter -/

/-- The writer escapes the quotes that are delimiters, and no others. -/
theorem delimiterEscapes_eq_count {quote : Char} (isQuote : IsQuote quote) (value : List Char) :
    delimiterEscapes quote value = value.count quote := by
  unfold delimiterEscapes List.count
  congr 1
  funext c
  by_cases quoted : IsQuote c
  · rcases isQuote with rfl | rfl <;> rcases quoted with rfl | rfl <;> rfl
  · have other : c ≠ quote := fun same => quoted (same ▸ isQuote)
    simp [quoted, other]

theorem delimiterEscapes_le {quote : Char} (isQuote : IsQuote quote) (value : List Char) :
    delimiterEscapes (delimiterFor value) value ≤ delimiterEscapes quote value := by
  rw [delimiterEscapes_eq_count (delimiterFor_cases value), delimiterEscapes_eq_count isQuote]
  unfold delimiterFor
  rcases isQuote with rfl | rfl <;> split <;> omega

theorem delimiterFor_of_tie {value : List Char}
    (tie : delimiterEscapes '\x27' value = delimiterEscapes '\x22' value) :
    delimiterFor value = '\x22' := by
  rw [delimiterEscapes_eq_count (.inl rfl), delimiterEscapes_eq_count (.inr rfl)] at tie
  exact if_neg (by omega)

/-- **A string literal denotes its value** in every spelling, between the delimiters that need the
fewest escapes. -/
theorem literalText_stringLiteral_denotes (spelling : Spelling) (value : List Char) :
    (∃ body, spelling.literalText (stringLiteral value) =
        delimiterFor value :: (body ++ [delimiterFor value]) ∧
      Denotes (delimiterFor value) (value.flatMap utf16Units) body) ∧
    IsQuote (delimiterFor value) ∧
    (∀ quote, IsQuote quote →
      delimiterEscapes (delimiterFor value) value ≤ delimiterEscapes quote value) ∧
    (delimiterEscapes '\x27' value = delimiterEscapes '\x22' value →
      delimiterFor value = '\x22') := by
  have isQuote : IsQuote (delimiterFor value) := delimiterFor_cases value
  exact ⟨exists_denotes_literalText spelling value, isQuote,
    fun _ other => delimiterEscapes_le other value, delimiterFor_of_tie⟩

end EcmaScribe.Text
