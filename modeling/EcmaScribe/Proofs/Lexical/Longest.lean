/-
# EcmaScribe.Proofs.Lexical.Longest -- when no longer element is read

The first character of a text tells the kinds of element that it may start: only the point and
the slash leave two.  So an element is the longest one at its place as soon as the character
after it does not go on with an element of its own kind.  A punctuator goes on with the next
character of a longer one or of a comment's opening (`followers`), and the point with a digit.
-/
import EcmaScribe.Proofs.Lexical.Delimited

namespace EcmaScribe

set_option autoImplicit false

open Text

namespace Lexical

variable {k : IdentifierClass} {slash : Bool} {text rest : List Char}

/-! ## First characters -/

/-- The characters with which punctuators and comments start. -/
def signs : List Char :=
  ['\x7b', '\x7d', '(', ')', '[', ']', '.', ';', ',', '<', '>', '=', '!', '+', '-', '*', '/', '%',
    '&', '|', '^', '~', '?', ':']

theorem head_of_sign (h : text ∈ punctuators ++ commentOpeners) :
    ∃ c tail, text = c :: tail ∧ c ∈ signs := by
  have table : ∀ t ∈ punctuators ++ commentOpeners, t.head?.any signs.contains = true := by decide
  have found := table text h
  cases text with
  | nil => cases found
  | cons c tail => exact ⟨c, tail, rfl, by simpa using found⟩

theorem IsNumber.head (h : IsNumber text) :
    ∃ c tail, text = c :: tail ∧ (c.isDigit = true ∨ c = '.') := by
  have ofWhole {whole tail : List Char} (isWhole : IsWhole whole) :
      ∃ c tail', whole ++ tail = c :: tail' ∧ (c.isDigit = true ∨ c = '.') := by
    obtain ⟨c, more, rfl⟩ := List.exists_cons_of_ne_nil isWhole.nonempty
    exact ⟨c, more ++ tail, rfl, .inl (isWhole.digits c (by simp))⟩
  cases h with
  | whole isWhole _ => exact ofWhole isWhole
  | point isWhole _ _ => exact ofWhole isWhole
  | fraction => exact ⟨'.', _, rfl, .inr rfl⟩
  | radix => exact ⟨'0', _, rfl, .inl rfl⟩
  | octal => exact ⟨'0', _, rfl, .inl rfl⟩

/-- A number that starts with a point goes on with a digit. -/
theorem IsNumber.second {tail : List Char} (h : IsNumber ('.' :: tail)) :
    ∃ d more, tail = d :: more ∧ d.isDigit = true := by
  have noWhole {whole rest : List Char} (isWhole : IsWhole whole) : '.' :: tail ≠ whole ++ rest := by
    obtain ⟨c, more, rfl⟩ := List.exists_cons_of_ne_nil isWhole.nonempty
    intro joined
    have digit := isWhole.digits c (by simp)
    rw [← (List.cons.inj joined).1] at digit
    cases digit
  generalize joined : '.' :: tail = text at h
  cases h with
  | whole isWhole _ => exact absurd joined (noWhole isWhole)
  | point isWhole _ _ => exact absurd joined (noWhole isWhole)
  | @fraction ds exponent nonempty digits _ =>
      obtain ⟨d, ds, rfl⟩ := List.exists_cons_of_ne_nil nonempty
      exact ⟨d, ds ++ exponent, (List.cons.inj joined).2, digits d (by simp)⟩
  | radix => cases joined
  | octal => cases joined

theorem IsString.head (h : IsString text) : ∃ c tail, text = c :: tail ∧ IsQuote c := by
  cases h with
  | quoted isQuote => exact ⟨_, _, rfl, isQuote⟩

theorem IsRegExp.head (h : IsRegExp k text) : ∃ tail, text = '/' :: tail := by
  cases h with
  | literal => exact ⟨_, rfl⟩

/-- What starts a word starts nothing else. -/
theorem not_startsWord {c : Char} (other : c.isDigit = true ∨ IsQuote c ∨ c ∈ signs) :
    ¬ (k.starts c = true ∨ c = '\\') := by
  have known : isAscii c = true ∧ (c.isAlpha || c = '$' || c = '_') = false ∧ c ≠ '\\' := by
    rcases other with digit | (rfl | rfl) | sign
    · exact forall_digit (P := fun c => isAscii c = true ∧
        (c.isAlpha || c = '$' || c = '_') = false ∧ c ≠ '\\') (by decide) digit
    · decide
    · decide
    · have table : ∀ c ∈ signs, isAscii c = true ∧
        (c.isAlpha || c = '$' || c = '_') = false ∧ c ≠ '\\' := by decide
      exact table c sign
  rintro (starts | backslash)
  · rw [k.starts_ascii c known.1, known.2.1] at starts
    cases starts
  · exact known.2.2 backslash

theorem not_digit_of_sign {c : Char} (sign : c ∈ signs) : c.isDigit = false := by
  have table : ∀ c ∈ signs, c.isDigit = false := by decide
  exact table c sign

theorem not_quote_of_sign {c : Char} (sign : c ∈ signs) : ¬ IsQuote c := by
  have table : ∀ c ∈ signs, ¬ IsQuote c := by decide
  exact table c sign

theorem not_quote_of_digit {c : Char} (digit : c.isDigit = true) : ¬ IsQuote c :=
  forall_digit (P := fun c => ¬ IsQuote c) (by decide) digit

/-- What starts an element of a kind that is no word. -/
theorem IsElement.head_of_not_word (h : IsElement k slash text) (noWord : ¬ IsWord k text) :
    ∃ c tail, text = c :: tail ∧ (c.isDigit = true ∨ IsQuote c ∨ c ∈ signs) := by
  cases h with
  | word h => exact absurd h noWord
  | number h =>
      obtain ⟨c, tail, rfl, digit | rfl⟩ := h.head
      · exact ⟨c, tail, rfl, .inl digit⟩
      · exact ⟨'.', tail, rfl, .inr (.inr (by decide))⟩
  | string h =>
      obtain ⟨c, tail, rfl, isQuote⟩ := h.head
      exact ⟨c, tail, rfl, .inr (.inl isQuote)⟩
  | regExp h =>
      obtain ⟨tail, rfl⟩ := h.head
      exact ⟨'/', tail, rfl, .inr (.inr (by decide))⟩
  | punctuator h =>
      obtain ⟨c, tail, rfl, sign⟩ := head_of_sign (List.mem_append_left _ h)
      exact ⟨c, tail, rfl, .inr (.inr sign)⟩
  | comment h =>
      obtain ⟨c, tail, rfl, sign⟩ := head_of_sign (List.mem_append_right _ h)
      exact ⟨c, tail, rfl, .inr (.inr sign)⟩

/-! ## Longest elements -/

/-- To see that an element is the longest one it is enough to look one character further. -/
theorem isLongest_of_next (element : IsElement k slash text)
    (next : ∀ c more, rest.head? = some c → ¬ IsElement k slash (text ++ c :: more)) :
    IsLongest k slash text rest := by
  refine ⟨element, fun more nonempty inRest => ?_⟩
  obtain ⟨c, more, rfl⟩ := List.exists_cons_of_ne_nil nonempty
  obtain ⟨tail, rfl⟩ := inRest
  exact next c more rfl

theorem isLongest_word (h : IsWord k text)
    (stops : ∀ c ∈ rest.head?, isIdentifierPart c = false) : IsLongest k slash text rest := by
  refine isLongest_of_next (.word h) fun c more first longer => ?_
  by_cases word : IsWord k (text ++ c :: more)
  · have goesOn := isIdentifierPart_of_nameParts (nameParts_of_append h.parts word.parts)
    rw [stops c first] at goesOn
    cases goesOn
  · obtain ⟨d, tail, rfl, starts⟩ := h.first
    obtain ⟨d', tail', joined, other⟩ := longer.head_of_not_word word
    rw [← (List.cons.inj joined).1] at other
    exact not_startsWord other starts

/-- The longer text starts with the same character, so it is no word either. -/
theorem not_isWord_of_head {c : Char} {tail : List Char}
    (other : c.isDigit = true ∨ IsQuote c ∨ c ∈ signs) : ¬ IsWord k (c :: tail) := by
  intro word
  obtain ⟨d, tail', joined, starts⟩ := word.first
  rw [← (List.cons.inj joined).1] at starts
  exact not_startsWord other starts

theorem isLongest_number (h : IsNumeral text)
    (stops : ∀ c ∈ rest.head?, isIdentifierPart c = false ∧ (c = '.' → ¬ IsDigits text)) :
    IsLongest k slash text rest := by
  refine isLongest_of_next (.number (isNumber_of_isNumeral h)) fun c more first longer => ?_
  obtain ⟨noPart, noPoint⟩ := stops c first
  obtain ⟨last, ends, digit⟩ := h.last
  obtain ⟨d, tail, rfl, starts⟩ := h.head
  have noWord : ¬ IsWord k (d :: tail ++ c :: more) := by
    refine not_isWord_of_head ?_
    rcases starts with digit | rfl
    · exact .inl digit
    · exact .inr (.inr (by decide))
  have noSign (member : d :: tail ++ c :: more ∈ punctuators ++ commentOpeners) : False := by
    rcases starts with isDigit | point
    · obtain ⟨s, tail', joined, sign⟩ := head_of_sign member
      rw [← (List.cons.inj joined).1] at sign
      rw [not_digit_of_sign sign] at isDigit
      cases isDigit
    · subst point
      obtain ⟨e, tail, rfl, isDigit⟩ := (isNumber_of_isNumeral h).second
      have table : ∀ t ∈ punctuators ++ commentOpeners,
          ((t.drop 1).head?.any fun e => e.isDigit) = false := by decide
      have := table _ member
      simp [isDigit] at this
  cases longer with
  | word h' => exact noWord h'
  | number h' =>
      rcases h'.inside with goesOn | ⟨point, digits⟩ | mark
      · rw [noPart] at goesOn
        cases goesOn
      · exact noPoint point digits
      · rw [EndsInMark, ends, Option.some.injEq, Option.some.injEq] at mark
        rcases mark with rfl | rfl <;> cases digit
  | string h' =>
      obtain ⟨q, tail', joined, isQuote⟩ := h'.head
      rw [← (List.cons.inj joined).1] at isQuote
      rcases starts with isDigit | rfl
      · exact not_quote_of_digit isDigit isQuote
      · exact not_quote_of_sign (by decide) isQuote
  | regExp h' =>
      obtain ⟨tail', joined⟩ := h'.head
      rw [(List.cons.inj joined).1] at starts
      rcases starts with isDigit | point
      · cases isDigit
      · cases point
  | punctuator h' => exact noSign (List.mem_append_left _ h')
  | comment h' => exact noSign (List.mem_append_right _ h')

theorem isLongest_string (h : IsString text) : IsLongest k slash text rest := by
  refine isLongest_of_next (.string h) fun c more _ longer => ?_
  obtain ⟨q, tail, rfl, isQuote⟩ := h.head
  have noSign (member : q :: tail ++ c :: more ∈ punctuators ++ commentOpeners) : False := by
    obtain ⟨s, tail', joined, sign⟩ := head_of_sign member
    rw [← (List.cons.inj joined).1] at sign
    exact not_quote_of_sign sign isQuote
  cases longer with
  | word h' => exact not_isWord_of_head (.inr (.inl isQuote)) h'
  | number h' =>
      obtain ⟨d, tail', joined, digit | point⟩ := h'.head
      · rw [← (List.cons.inj joined).1] at digit
        exact not_quote_of_digit digit isQuote
      · rw [(List.cons.inj joined).1, point] at isQuote
        exact absurd isQuote (by decide)
  | string h' => cases h.eq_nil h'
  | regExp h' =>
      obtain ⟨tail', joined⟩ := h'.head
      rw [(List.cons.inj joined).1] at isQuote
      exact absurd isQuote (by decide)
  | punctuator h' => exact noSign (List.mem_append_left _ h')
  | comment h' => exact noSign (List.mem_append_right _ h')

theorem isLongest_regExp (h : IsRegExp k text)
    (stops : ∀ c ∈ rest.head?, isIdentifierPart c = false) : IsLongest k true text rest := by
  refine isLongest_of_next (.regExp h rfl) fun c more first longer => ?_
  obtain ⟨tail, rfl⟩ := h.head
  cases longer with
  | word h' => exact not_isWord_of_head (.inr (.inr (by decide))) h'
  | number h' =>
      obtain ⟨d, tail', joined, digit | point⟩ := h'.head
      · rw [← (List.cons.inj joined).1] at digit
        cases digit
      · rw [← (List.cons.inj joined).1] at point
        cases point
  | string h' =>
      obtain ⟨q, tail', joined, isQuote⟩ := h'.head
      rw [← (List.cons.inj joined).1] at isQuote
      exact absurd isQuote (by decide)
  | regExp h' =>
      have goesOn := isIdentifierPart_of_nameParts (h.rest h')
      rw [stops c first] at goesOn
      cases goesOn
  | punctuator _ divides => exact divides rfl rfl
  | comment h' =>
      -- the second character of a pattern's literal opens no comment
      have table : ∀ t ∈ commentOpeners, t.head? = some '/' →
          (t.drop 1).head? = some '/' ∨ (t.drop 1).head? = some '*' := by decide
      have second := table _ h' rfl
      generalize joined : '/' :: tail = whole at h
      cases h with
      | @literal pattern flags isPattern _ =>
          obtain ⟨d, pattern, rfl⟩ := List.exists_cons_of_ne_nil isPattern.nonempty
          rw [(List.cons.inj joined).2] at second
          have star : d ≠ '*' := by simpa using isPattern.noComment
          have noSlash : d ≠ '/' := by
            rintro rfl
            have closed := afterSlash_parts isPattern.parts []
            rw [List.cons_append, afterSlash_outside (by decide), if_pos rfl] at closed
            simp at closed
          simp [star, noSlash] at second

/-- The characters that go on with a punctuator. -/
def followers (text : List Char) : List Char :=
  (punctuators ++ commentOpeners).filterMap fun longer =>
    if text.isPrefixOf longer then longer[text.length]? else none

theorem mem_followers {c : Char} {more : List Char}
    (h : text ++ c :: more ∈ punctuators ++ commentOpeners) : c ∈ followers text := by
  refine List.mem_filterMap.2 ⟨_, h, ?_⟩
  rw [if_pos (by simp)]
  simp

theorem isLongest_punctuator (h : text ∈ punctuators)
    (stops : ∀ c ∈ rest.head?, c ∉ followers text ∧ (text = ['.'] → c.isDigit = false)) :
    IsLongest k false text rest := by
  have noSlash : false = true → text.head? ≠ some '/' := nofun
  refine isLongest_of_next (.punctuator h noSlash) fun c more first longer => ?_
  obtain ⟨noFollower, noDigit⟩ := stops c first
  obtain ⟨s, tail, rfl, sign⟩ := head_of_sign (List.mem_append_left _ h)
  cases longer with
  | word h' => exact not_isWord_of_head (.inr (.inr sign)) h'
  | number h' =>
      obtain ⟨d, tail', joined, digit | point⟩ := h'.head
      · rw [← (List.cons.inj joined).1, not_digit_of_sign sign] at digit
        cases digit
      · -- of the punctuators that start with a point, a digit may follow only the point alone
        rw [← (List.cons.inj joined).1] at point
        subst point
        obtain ⟨e, after, next, digit⟩ := h'.second
        cases tail with
        | nil =>
            rw [← (List.cons.inj next).1] at digit
            rw [noDigit rfl] at digit
            cases digit
        | cons e' tail =>
            have table : ∀ t ∈ punctuators, t.head? = some '.' →
                ((t.drop 1).head?.any fun e => e.isDigit) = false := by decide
            have digits := table _ h rfl
            rw [(List.cons.inj next).1] at digits
            simp [digit] at digits
  | string h' =>
      obtain ⟨q, tail', joined, isQuote⟩ := h'.head
      rw [← (List.cons.inj joined).1] at isQuote
      exact not_quote_of_sign sign isQuote
  | regExp _ opens => cases opens
  | punctuator h' => exact noFollower (mem_followers (List.mem_append_left _ h'))
  | comment h' => exact noFollower (mem_followers (List.mem_append_right _ h'))

end Lexical

end EcmaScribe
