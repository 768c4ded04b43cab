/-
# EcmaScribe.Proofs.DirectiveText -- a directive stays one literal with its value

The delimiter of a directive is chosen for the text as it stands in the source, and safe output
writes a text that the sanitizer has gone over.  Whether a quote ends the literal is decided by
the backslashes in front of it, and the sanitizer adds some and folds others away.

`unescaped` are the characters that no backslash escapes, which is all that the choice of the
delimiter looks at (`hasBareDoubleQuote_iff`).  Respelling adds none to them but digits
(`Respelled.forall_mem_unescaped`): a character that it leaves alone keeps its backslash, and an
escape that it writes brings a backslash for itself.  So the delimiter is right for the sanitized
text too, and `directive_denotes` says of both spellings that the token is one string, closed by
its own delimiter, with the value of the raw text.
-/
import EcmaScribe.Proofs.TemplateText
import EcmaScribe.Proofs.Text.StringValue

namespace EcmaScribe

set_option autoImplicit false

open Text Lexical

namespace Text

/-! ## Characters that no backslash escapes -/

/-- The characters of raw text that no backslash escapes.  A backslash before a carriage return
takes the line feed after it along; one with nothing behind it escapes nothing. -/
def unescaped : List Char → List Char
  | '\\' :: '\x0d' :: '\n' :: rest => unescaped rest
  | '\\' :: _ :: rest => unescaped rest
  | c :: rest => c :: unescaped rest
  | [] => []

theorem unescaped_bare {c : Char} (noBackslash : c ≠ '\\') (rest : List Char) :
    unescaped (c :: rest) = c :: unescaped rest :=
  unescaped.eq_3 c rest (fun _ same _ => noBackslash same) fun _ _ same _ => noBackslash same

/-- A backslash escapes a character or a line end. -/
theorem unescaped_escape (c : Char) (rest : List Char) :
    unescaped ('\\' :: c :: rest) = unescaped (if startsPair c rest then rest.tail else rest) := by
  match rest with
  | [] => simp [unescaped, startsPair]
  | d :: rest =>
      by_cases pair : c = '\x0d' ∧ d = '\n'
      · obtain ⟨rfl, rfl⟩ := pair
        rfl
      · have single : startsPair c (d :: rest) = false := by simpa [startsPair] using pair
        rw [single, unescaped.eq_2]
        · rfl
        · rintro more rfl same
          exact pair ⟨rfl, (List.cons.inj same).1⟩

theorem unescaped_append {front : List Char} (noBackslash : '\\' ∉ front) (rest : List Char) :
    unescaped (front ++ rest) = front ++ unescaped rest := by
  induction front with
  | nil => rfl
  | cons c front ih =>
      simp only [List.mem_cons, not_or] at noBackslash
      rw [List.cons_append, unescaped_bare (Ne.symm noBackslash.1), ih noBackslash.2]
      rfl

theorem backslash_not_mem_hexFixed (width n : Nat) : '\\' ∉ hexFixed .upper width n := by
  intro member
  exact forall_mem_hexDigit (P := (· ≠ '\\')) (by decide) width n _ member rfl

/-- Of an escape that a pass writes, digits are left. -/
theorem forall_mem_unescaped_spells {P : Char → Prop}
    (digits : ∀ value < 16, P (hexDigit .upper value)) {c : Char} {e : List Char}
    (spells : Spells c e) {rest : List Char} (later : ∀ d ∈ unescaped rest, P d) :
    ∀ d ∈ unescaped (e ++ rest), P d := by
  have two {a b : Nat} (first : a < 16) (second : b < 16) :
      ∀ d ∈ hexDigit .upper a :: hexDigit .upper b :: unescaped rest, P d :=
    List.forall_mem_cons.2 ⟨digits a first, List.forall_mem_cons.2 ⟨digits b second, later⟩⟩
  cases spells with
  | nul => exact two (a := 0) (b := 0) (by decide) (by decide)
  | small => exact two (a := 7) (b := 3) (by decide) (by decide)
  | capital => exact two (a := 5) (b := 3) (by decide) (by decide)
  | units =>
      unfold escapeUnits
      generalize utf16Units c = units
      induction units with
      | nil => exact later
      | cons unit units ih =>
          simp only [List.flatMap_cons, List.cons_append, List.append_assoc]
          have noPair (text : List Char) : startsPair 'u' text = false := rfl
          rw [unescaped_escape, noPair, if_neg (by decide),
            unescaped_append (backslash_not_mem_hexFixed 4 unit), List.forall_mem_append]
          exact ⟨forall_mem_hexDigit digits 4 unit, ih⟩

/-- A character that is respelled is no carriage return. -/
theorem Spells.startsPair {c : Char} {e : List Char} (spells : Spells c e) (rest : List Char) :
    startsPair c rest = false := by
  have other : c ≠ '\x0d' := by
    rintro rfl
    exact spells.not_isFixed (by decide)
  simp [Text.startsPair, other]

/-- **Respelling frees no character**: what holds of the digits and of all characters that no
backslash escapes holds of those of the respelled text. -/
theorem Respelled.forall_mem_unescaped {P : Char → Prop}
    (digits : ∀ value < 16, P (hexDigit .upper value)) {t u : List Char} (h : Respelled t u)
    (all : ∀ c ∈ unescaped t, P c) : ∀ c ∈ unescaped u, P c := by
  induction hn : t.length using Nat.strongRecOn generalizing t u with
  | ind n ih =>
      have kept {t' u' : List Char} (h' : Respelled t' u') (shorter : t'.length < t.length)
          (all' : ∀ c ∈ unescaped t', P c) : ∀ c ∈ unescaped u', P c :=
        ih _ (hn ▸ shorter) h' all' rfl
      cases h with
      | nil => exact all
      | dangling => exact all
      | copied noBackslash more =>
          rw [unescaped_bare noBackslash, List.forall_mem_cons] at all ⊢
          exact ⟨all.1, kept more (by simp) all.2⟩
      | @escaped c t u more =>
          rw [unescaped_escape] at all ⊢
          rw [startsPair_respelled more]
          by_cases pair : startsPair c t = true
          · rw [if_pos pair] at all ⊢
            have lineFeed : t.head? = some '\n' := by
              simp only [Text.startsPair, Bool.and_eq_true, decide_eq_true_eq] at pair
              exact pair.2
            obtain ⟨t, rfl⟩ := List.head?_eq_some_iff.1 lineFeed
            obtain ⟨u, rfl, later⟩ := more.of_fixed (by decide)
            exact kept later (by simp only [List.length_cons]; omega) all
          · rw [if_neg pair] at all ⊢
            exact kept more (by simp only [List.length_cons]; omega) all
      | spelled spells more =>
          rw [unescaped_bare spells.ne_backslash, List.forall_mem_cons] at all
          exact forall_mem_unescaped_spells digits spells (kept more (by simp) all.2)
      | @folded c e t u spells _ more =>
          rw [unescaped_escape, spells.startsPair, if_neg (by decide)] at all
          exact forall_mem_unescaped_spells digits spells
            (kept more (by simp only [List.length_cons]; omega) all)
      | @continued c t u separator more =>
          have noPair : startsPair c t = false := by
            have other : c ≠ '\x0d' := by
              rintro rfl
              cases separator
            simp [Text.startsPair, other]
          rw [unescaped_escape, noPair, if_neg (by decide)] at all
          show ∀ c ∈ unescaped u, P c
          exact kept more (by simp only [List.length_cons]; omega) all

/-! ## The delimiter -/

/-- An escape takes no character away but a line feed. -/
theorem mem_unescaped_escape {quote : Char} (other : quote ≠ '\n') (c : Char) (rest : List Char) :
    quote ∈ unescaped ('\\' :: c :: rest) ↔ quote ∈ unescaped rest := by
  rw [unescaped_escape]
  split
  · rename_i pair
    have lineFeed : rest.head? = some '\n' := by
      simp only [startsPair, Bool.and_eq_true, decide_eq_true_eq] at pair
      exact pair.2
    obtain ⟨more, rfl⟩ := List.head?_eq_some_iff.1 lineFeed
    rw [unescaped_bare (by decide), List.mem_cons, List.tail_cons]
    simp only [other, false_or]
  · rfl

/-- The scan for the delimiter looks at the characters that no backslash escapes. -/
theorem hasBareDoubleQuote_iff (raw : List Char) :
    hasBareDoubleQuote raw = true ↔ '\x22' ∈ unescaped raw := by
  induction raw using escape_induction with
  | nil => simp [hasBareDoubleQuote, unescaped]
  | dangling => simp [hasBareDoubleQuote, unescaped]
  | escaped c rest ih =>
      rw [mem_unescaped_escape (by decide)]
      exact ih
  | char c rest noBackslash ih =>
      rw [unescaped_bare noBackslash, List.mem_cons, ← ih,
        hasBareDoubleQuote.eq_2 c rest fun _ _ same _ => noBackslash same, Bool.or_eq_true,
        decide_eq_true_eq, eq_comm]

/-- A quote that no backslash escapes is not the delimiter, if only one kind stands free. -/
theorem directiveDelimiter_not_mem {raw : List Char}
    (oneQuote : ¬ ('\x22' ∈ unescaped raw ∧ '\x27' ∈ unescaped raw)) :
    directiveDelimiter raw ∉ unescaped raw := by
  unfold directiveDelimiter
  by_cases free : '\x22' ∈ unescaped raw
  · rw [if_pos ((hasBareDoubleQuote_iff raw).2 free)]
    exact fun single => oneQuote ⟨free, single⟩
  · rw [if_neg fun bare => free ((hasBareDoubleQuote_iff raw).1 bare)]
    exact free

end Text

/-! ## One literal -/

namespace Lexical

variable {quote : Char}

/-- The scan for the end of a string stops at the first delimiter that no backslash escapes. -/
theorem afterQuote_of_unescaped (isQuote : IsQuote quote) {text : List Char}
    (noDangling : '\\' ∉ unescaped text) (noQuote : quote ∉ unescaped text) (rest : List Char) :
    afterQuote quote (text ++ quote :: rest) = some rest := by
  have noLineFeed : quote ≠ '\n' := by rcases isQuote with rfl | rfl <;> decide
  induction text using escape_induction with
  | nil => exact afterQuote_quote isQuote rest
  | dangling => exact absurd (List.mem_cons_self ..) noDangling
  | escaped c text ih =>
      rw [mem_unescaped_escape noLineFeed] at noQuote
      rw [mem_unescaped_escape (by decide)] at noDangling
      exact ih noDangling noQuote
  | char c text noBackslash ih =>
      rw [unescaped_bare noBackslash, List.mem_cons, not_or] at noQuote noDangling
      rw [List.cons_append, afterQuote_cons (Ne.symm noQuote.1) noBackslash]
      exact ih noDangling.2 noQuote.2

/-- Text that starts with a part of a string, which hides nothing that stands free behind it. -/
def LeadsWithPart (quote : Char) (text rest : List Char) : Prop :=
  ∃ part, text = part ++ rest ∧ IsStringPart quote part ∧
    ∀ c ∈ unescaped rest, c ∈ unescaped text

/-- An escape hides nothing that stands behind it if no backslash is within it. -/
theorem leadsWithPart_of_escape {c : Char} (front rest : List Char)
    (isPart : IsStringPart quote ('\\' :: c :: front)) (noBackslash : '\\' ∉ front)
    (noPair : startsPair c (front ++ rest) = false) :
    LeadsWithPart quote ('\\' :: c :: (front ++ rest)) rest := by
  refine ⟨_, rfl, isPart, fun d member => ?_⟩
  rw [unescaped_escape, noPair, if_neg (by decide), unescaped_append noBackslash]
  exact List.mem_append_right front member

theorem backslash_not_mem_of_isHexDigit {ds : List Char}
    (digits : ∀ d ∈ ds, isHexDigit d = true) : '\\' ∉ ds :=
  fun member => absurd (digits _ member) (by decide)

theorem leadsWithPart_of_cookByte {text rest : List Char} {units : List Nat}
    (cooked : cookByte text = some (units, rest)) :
    LeadsWithPart quote ('\\' :: 'x' :: text) rest := by
  unfold cookByte at cooked
  split at cooked
  · rename_i a b rest
    split at cooked
    · rename_i digits
      rw [Bool.and_eq_true] at digits
      cases cooked
      refine leadsWithPart_of_escape [a, b] rest (.hexadecimal digits.1 digits.2) ?_ rfl
      exact backslash_not_mem_of_isHexDigit (by simpa using digits)
    · cases cooked
  · cases cooked

theorem leadsWithPart_of_cookUnicode {text rest : List Char} {units : List Nat}
    (cooked : cookUnicode text = some (units, rest)) :
    LeadsWithPart quote ('\\' :: 'u' :: text) rest := by
  unfold cookUnicode at cooked
  split at cooked
  · rename_i text
    have split := List.takeWhile_append_dropWhile (p := isHexDigit) (l := text)
    have digits : ∀ d ∈ text.takeWhile isHexDigit, isHexDigit d = true := fun _ member =>
      List.mem_takeWhile_imp member
    dsimp only at cooked
    generalize text.takeWhile isHexDigit = ds at cooked split digits
    generalize text.dropWhile isHexDigit = after at cooked split
    subst split
    split at cooked
    · rename_i rest
      split at cooked
      · cases cooked
      · rename_i inRange
        cases cooked
        have nonempty : ds ≠ [] := by
          rintro rfl
          simp at inRange
        have isPart : IsStringPart quote ('\\' :: 'u' :: '\x7b' :: (ds ++ ['\x7d'])) :=
          .unicode (.braced nonempty digits)
        have braced := leadsWithPart_of_escape _ rest isPart
          (by simp [backslash_not_mem_of_isHexDigit digits]) rfl
        simpa using braced
    · cases cooked
  · rename_i a b c d rest _
    split at cooked
    · rename_i digits
      cases cooked
      have four : ∀ e ∈ [a, b, c, d], isHexDigit e = true := List.all_eq_true.1 digits
      exact leadsWithPart_of_escape [a, b, c, d] rest (.unicode (.fixed four))
        (backslash_not_mem_of_isHexDigit four) rfl
    · cases cooked
  · cases cooked

/-- A backslash continues a line over both halves of its end. -/
theorem leadsWithPart_of_lineEnd {c : Char} (lineEnd : isLineTerminator c = true)
    (text : List Char) : LeadsWithPart quote ('\\' :: c :: text)
      (if startsPair c text then text.tail else text) := by
  by_cases pair : startsPair c text = true
  · have shape := pair
    simp only [startsPair, Bool.and_eq_true, decide_eq_true_eq] at shape
    obtain ⟨rfl, lineFeed⟩ := shape
    obtain ⟨rest, rfl⟩ := List.head?_eq_some_iff.1 lineFeed
    exact ⟨['\\', '\x0d', '\n'], rfl, .continuedPair, fun _ member => member⟩
  · rw [Bool.not_eq_true] at pair
    rw [pair, if_neg (by decide)]
    exact leadsWithPart_of_escape [] text (.continued lineEnd) (by simp) pair

/-- **An escape that stands for something** is part of a string. -/
theorem leadsWithPart_of_cookEscape {c : Char} {text rest : List Char} {units : List Nat}
    (cooked : cookEscape c text = some (units, rest)) :
    LeadsWithPart quote ('\\' :: c :: text) rest := by
  unfold cookEscape at cooked
  split at cooked
  · rename_i byte
    exact byte ▸ leadsWithPart_of_cookByte cooked
  split at cooked
  · rename_i unicode
    exact unicode ▸ leadsWithPart_of_cookUnicode cooked
  split at cooked
  · rename_i lineEnd
    cases cooked
    exact leadsWithPart_of_lineEnd lineEnd text
  rename_i noByte noUnicode noEnd
  rw [Bool.not_eq_true] at noEnd
  have noPair : startsPair c text = false := by
    have noReturn : c ≠ '\x0d' := by
      rintro rfl
      cases noEnd
    simp [startsPair, noReturn]
  split at cooked
  · split at cooked
    · rename_i zero
      cases cooked
      exact leadsWithPart_of_escape [] text (.octal (zero.1 ▸ rfl)) (by simp) noPair
    · cases cooked
  · rename_i noDigit
    cases cooked
    exact leadsWithPart_of_escape [] text
      (.escaped noEnd (by simpa using noDigit) ⟨noByte, noUnicode⟩) (by simp) noPair

/-- Text with a value is the body of a string, if its delimiter and line ends are escaped. -/
theorem isStringBody_of_cook {text : List Char} {units : List Nat}
    (cooked : cook .string text = some units)
    (closed : ∀ c ∈ unescaped text, c ≠ quote ∧ isLineTerminator c = false) :
    IsStringBody quote text := by
  induction hn : text.length using Nat.strongRecOn generalizing text units with
  | ind n ih =>
      match text, cooked with
      | [], _ => exact .nil
      | c :: rest, cooked =>
          by_cases backslash : c = '\\'
          · subst backslash
            match rest, cooked with
            | [], cooked => simp [cook] at cooked
            | c :: rest, cooked =>
                obtain ⟨first, left, others, escape, later, rfl⟩ := cook_escape_eq_some.1 cooked
                have leads : LeadsWithPart quote ('\\' :: c :: rest) left :=
                  leadsWithPart_of_cookEscape escape
                obtain ⟨part, split, isPart, free⟩ := leads
                have bound := length_le_of_cookEscape escape
                rw [split]
                refine .cons isPart (ih left.length ?_ later (fun d member => ?_) rfl)
                · rw [← hn]
                  simp only [List.length_cons]
                  omega
                · exact closed d (free d member)
          · obtain ⟨first, others, -, later, rfl⟩ := (cook_bare_eq_some backslash).1 cooked
            rw [unescaped_bare backslash, List.forall_mem_cons] at closed
            have isPart : IsStringPart quote [c] := .plain closed.1.1 backslash closed.1.2
            exact .cons isPart (ih rest.length (by rw [← hn]; simp) later closed.2 rfl)

end Lexical

/-! ## Directives -/

/-- Raw text that stands between delimiters: every backslash escapes something, no line ends but
behind a backslash, and one of the two quotes is escaped wherever it stands. -/
structure IsDirectiveText (raw : List Char) : Prop where
  noDangling : '\\' ∉ unescaped raw
  oneLine : ∀ c ∈ unescaped raw, isLineTerminator c = false
  oneQuote : ¬ ('\x22' ∈ unescaped raw ∧ '\x27' ∈ unescaped raw)

theorem isQuote_directiveDelimiter (raw : List Char) : IsQuote (directiveDelimiter raw) := by
  unfold directiveDelimiter
  split
  · exact .inl rfl
  · exact .inr rfl

/-- Quotes around sanitized text make nothing unsafe. -/
theorem isWebSafe_quoted {quote : Char} (isQuote : IsQuote quote) {text : List Char}
    (safe : isWebSafe text = true) : isWebSafe (quote :: (text ++ [quote])) = true := by
  have foreign : quote ≠ '/' ∧ (∀ letter ∈ scriptWord, isLetter quote letter = false) ∧
      endsTagName quote = false ∧ isWebSafe [quote] = true ∧ quote ≠ '<' := by
    rcases isQuote with rfl | rfl <;> decide
  obtain ⟨noSlash, noLetter, noEnd, alone, noAngle⟩ := foreign
  have closes : isWebSafe (text ++ [quote]) = true :=
    isWebSafe_append_cons ⟨noSlash, noLetter, noEnd⟩ safe alone
  exact isWebSafe_cons ⟨noAngle, noSlash, noLetter⟩ alone closes

theorem directiveText_eq (spelling : Spelling) (raw : List Char) :
    Lexeme.directiveText spelling raw = directiveDelimiter raw ::
      (spelling.literalText raw ++ [directiveDelimiter raw]) := rfl

/-- A stream writes a directive as the spelling has it. -/
theorem writtenText_directive {spelling : Spelling} {layout : Layout} (fits : layout.Fits spelling)
    (raw : String) : (Lexeme.directive raw).writtenText spelling layout =
      Lexeme.directiveText spelling raw.toList := by
  refine Lexeme.writtenText_of_isWebSafe rfl fun safe => ?_
  rw [fits safe, directiveText_eq]
  exact isWebSafe_quoted (isQuote_directiveDelimiter _) (isWebSafe_sanitize _)

/-- Spelling a text frees no character in it. -/
theorem forall_mem_unescaped_literalText {P : Char → Prop}
    (digits : ∀ value < 16, P (hexDigit .upper value)) (spelling : Spelling) {raw : List Char}
    (all : ∀ c ∈ unescaped raw, P c) : ∀ c ∈ unescaped (spelling.literalText raw), P c := by
  cases spelling with
  | plain => exact all
  | webSafe =>
      exact sanitize_keeps (P := fun text => ∀ c ∈ unescaped text, P c)
        (fun _ _ respelled => respelled.forall_mem_unescaped digits) all

theorem cook_literalText (spelling : Spelling) {raw : List Char} {units : List Nat}
    (cooked : cook .string raw = some units) :
    cook .string (spelling.literalText raw) = some units := by
  cases spelling with
  | plain => exact cooked
  | webSafe =>
      exact sanitize_keeps (P := fun text => cook .string text = some units)
        (fun _ _ respelled => cook_respelled respelled) cooked

/-- **A directive is one string literal with the value of its text.**  In every spelling its token
is the text between two delimiters, as it is or sanitized, and it is written so.

* No delimiter, backslash or line end stands in the text but behind a backslash, so a reader
  finds the end of the string where the text ends.
* If the text has a value, the token is a string, and the text in it has that value. -/
theorem directive_denotes (spelling : Spelling) (raw : String)
    (isText : IsDirectiveText raw.toList) :
    let quote := directiveDelimiter raw.toList
    let text := spelling.literalText raw.toList
    IsQuote quote ∧
      (Node.directive raw).fragment.tokens spelling false =
        [.put (.text (quote :: (text ++ [quote]))), .optionalSemicolon] ∧
      (∀ layout : Layout, layout.Fits spelling →
        (Lexeme.directive raw).writtenText spelling layout = quote :: (text ++ [quote])) ∧
      (∀ c ∈ unescaped text, c ≠ quote ∧ c ≠ '\\' ∧ isLineTerminator c = false) ∧
      (∀ rest, afterQuote quote (text ++ quote :: rest) = some rest) ∧
      ∀ units, cook .string raw.toList = some units →
        IsString (quote :: (text ++ [quote])) ∧ cook .string text = some units := by
  intro quote text
  have isQuote : IsQuote quote := isQuote_directiveDelimiter raw.toList
  have noDelimiter : quote ∉ unescaped raw.toList := directiveDelimiter_not_mem isText.oneQuote
  have digits : ∀ value < 16, hexDigit .upper value ≠ quote ∧ hexDigit .upper value ≠ '\\' ∧
      isLineTerminator (hexDigit .upper value) = false := by
    rcases isQuote with same | same <;> rw [same] <;> decide
  have closed : ∀ c ∈ unescaped text, c ≠ quote ∧ c ≠ '\\' ∧ isLineTerminator c = false := by
    refine forall_mem_unescaped_literalText digits spelling fun c member => ?_
    refine ⟨?_, ?_, isText.oneLine c member⟩
    · rintro rfl
      exact noDelimiter member
    · rintro rfl
      exact isText.noDangling member
  refine ⟨isQuote, rfl, fun layout fits => writtenText_directive fits raw, closed, ?_, ?_⟩
  · exact afterQuote_of_unescaped isQuote (fun member => (closed _ member).2.1 rfl)
      fun member => (closed _ member).1 rfl
  · intro units cooked
    have value := cook_literalText spelling cooked
    exact ⟨.quoted isQuote (isStringBody_of_cook value fun c member =>
      ⟨(closed c member).1, (closed c member).2.2⟩), value⟩

/-- A double quote that stands free, a single one that does not, backslashes of both parities before
a character that is respelled, a tag, and two line ends with a backslash in front. -/
def hostileDirective : String :=
  "a\"s\\'\u00e9\\\\\\\u00e9\\\u2028</script>\\\x0d\n😀"

theorem directive_denotes_hostileDirective : IsDirectiveText hostileDirective.toList ∧
    (Node.directive hostileDirective).fragment.tokens .webSafe false =
      [.put (.text
        "'a\"s\\'\\u00E9\\\\\\u00E9\\\n</\\x73cript>\\\x0d\n\\uD83D\\uDE00'".toList),
        .optionalSemicolon] ∧
    cook .string (sanitize hostileDirective.toList) =
      some [97, 34, 115, 39, 0xE9, 92, 0xE9, 60, 47, 115, 99, 114, 105, 112, 116, 62, 0xD83D,
        0xDE00] := by
  have isText : IsDirectiveText hostileDirective.toList := by
    constructor <;> decide +kernel
  obtain ⟨-, tokens, -, -, -, value⟩ := directive_denotes .webSafe hostileDirective isText
  refine ⟨isText, tokens.trans ?_, (value _ ?_).2⟩
  · decide +kernel
  · decide +kernel

end EcmaScribe
