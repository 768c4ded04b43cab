/-
# EcmaScribe.Proofs.WordSeparation -- words in safe output

Safe output writes a name with its non-ASCII characters escaped.  Two words in a row need a blank
in between when the second goes on with the first, and the stream sees that by the last
character of the first.  One ending hides it: the brace that closes the escape of a character
beyond U+FFFF is no identifier part, so after the name of a variable that ends in such a
character no blank is left, and a reader takes both words for one.

`gap_between_words` gives the gap of any two words in a row, and tells exactly when the first
one is read as it was written.
-/
import EcmaScribe.Proofs.Layout.Safety
import EcmaScribe.Proofs.Separation
import EcmaScribe.Proofs.Text.NameEscape

namespace EcmaScribe

set_option autoImplicit false

open Text Lexical

variable {k : IdentifierClass}

/-! ## Words -/

/-- Names are names; all other text is arbitrary. -/
def Leaf.Named (k : IdentifierClass) : Leaf → Prop
  | name _ text => k.isName text.toList = true
  | key value => isIdentifierName value.toList = true → k.isName value.toList = true
  | number _ | string _ | specifier _ | regExp .. | directive _ | template _ => True

namespace Lexeme

/-- Names, keywords and numbers. -/
def isWord : Lexeme → Bool
  | verbatim text => text.toList.head?.any Char.isAlpha
  | name .. | number _ => true
  | _ => false

/-- The name of a variable whose last character is escaped in braces. -/
def endsInBraces : Lexeme → Bool
  | name role text => role.isVariable && text.toList.getLast?.any isAstral
  | _ => false

/-- What the text of a word is like in safe output. -/
structure SafeWord (k : IdentifierClass) (l : Lexeme) (text : List Char) : Prop where
  last : ∃ d, text.getLast? = some d ∧
    (l.endsInBraces = true ∧ d = '\x7d' ∨ l.endsInBraces = false ∧ isIdentifierPart d = true)
  /-- Without a sign in front it is a word or a number of the language. -/
  element : text.head? ≠ some '-' →
    IsWord k text ∨ IsNumeral text ∧ l.endsInBraces = false
  /-- What it starts with goes on with a word, if it is no number that starts with a sign. -/
  first : (∃ front, front ≠ [] ∧ front <+: text ∧ Repeated (IsNamePart k) front) ∨
    ∃ value, l = .number value ∧ ∀ c ∈ text.head?, isIdentifierPart c = false

end Lexeme

/-- Whether two words have to be kept apart: the second goes on with the first, or it makes a
fraction of an integer. -/
def Piece.needsBlank (p q : Piece) : Bool :=
  q.text.head?.any fun c => isIdentifierPart c || (c = '.' && p.text.all Char.isDigit)

/-! ## The text of a word -/

/-- A character of a name is escaped by parts of a name. -/
theorem nameParts_nameChar (braced : Bool) {c : Char} (h : k.continues c = true) :
    Repeated (IsNamePart k) (nameChar braced c) := by
  have single {e : List Char} (isEscape : IsEscape e) : Repeated (IsNamePart k) e := by
    simpa using Repeated.cons (.escape isEscape) .nil
  unfold nameChar
  split
  · exact nameParts_of_continues (by simpa using h)
  split
  · refine single (.braced ?_ fun e member => ?_)
    · simp [hexShort, hexFixed]
    · exact forall_mem_hexDigit (P := fun e => isHexDigit e = true) (by decide) _ _ e member
  · unfold escapeUnits
    generalize utf16Units c = units
    induction units with
    | nil => exact .nil
    | cons unit units ih => exact (single (isEscape_hexFixed unit)).append ih

theorem nameParts_flatMap (braced : Bool) {name : List Char}
    (h : ∀ c ∈ name, k.continues c = true) :
    Repeated (IsNamePart k) (name.flatMap (nameChar braced)) := by
  induction name with
  | nil => exact .nil
  | cons c rest ih =>
      obtain ⟨first, others⟩ := List.forall_mem_cons.1 h
      rw [List.flatMap_cons]
      exact (nameParts_nameChar braced first).append (ih others)

/-- How the escape of a character ends. -/
theorem getLast_nameChar (braced : Bool) {c : Char} (h : k.continues c = true) :
    ∃ d, (nameChar braced c).getLast? = some d ∧ ((braced && isAstral c) = true ∧ d = '\x7d' ∨
      (braced && isAstral c) = false ∧ isIdentifierPart d = true) := by
  unfold nameChar
  by_cases ascii : isAscii c = true
  · have low : isAstral c = false := by
      simp only [isAscii, decide_eq_true_eq] at ascii
      simp only [isAstral, decide_eq_false_iff_not]
      omega
    rw [if_pos ascii]
    exact ⟨c, rfl, .inr ⟨by simp [low], IdentifierClass.isIdentifierPart_of_continues h⟩⟩
  · rw [if_neg ascii]
    by_cases escaped : (braced && isAstral c) = true
    · rw [if_pos escaped]
      exact ⟨'\x7d', getLast?_bracedEscape c, .inl ⟨escaped, rfl⟩⟩
    · rw [if_neg escaped]
      obtain ⟨d, ends, value, small, rfl⟩ := exists_getLast_escapeUnits c
      have digits : ∀ value < 16, isIdentifierPart (hexDigit .upper value) = true := by decide
      exact ⟨_, ends, .inr ⟨by simpa using escaped, digits value small⟩⟩

/-- The name of a variable, or any other name. -/
theorem writtenText_name {role : NameRole} {text : String} (isName : k.isName text.toList = true) :
    (Lexeme.name role text).writtenText .webSafe .webSafe =
      text.toList.flatMap (nameChar role.isVariable) := by
  have plain : ∀ c ∈ text.toList, IsPlain c := fun c member =>
    isPlain_of_continues (IdentifierClass.continues_of_isName isName c member)
  show sanitize (if role.isVariable then sanitizeName text.toList else text.toList) = _
  cases role.isVariable with
  | true =>
      rw [if_pos rfl, sanitizeName_eq plain]
      exact sanitize_of_plain (plain_flatMap_nameChar plain true)
  | false => exact sanitize_name plain

theorem isWord_flatMap_nameChar (braced : Bool) {name : List Char} (isName : k.isName name = true) :
    IsWord k (name.flatMap (nameChar braced)) := by
  refine ⟨?_, nameParts_flatMap braced (IdentifierClass.continues_of_isName isName)⟩
  cases name with
  | nil => cases isName
  | cons c rest =>
      have starts := (IdentifierClass.isName_cons isName).1
      rw [List.flatMap_cons]
      unfold nameChar
      split
      · exact ⟨c, _, rfl, .inl starts⟩
      split
      · exact ⟨'\\', _, rfl, .inr rfl⟩
      · unfold escapeUnits utf16Units
        split
        · exact ⟨'\\', _, rfl, .inr rfl⟩
        · exact ⟨'\\', _, rfl, .inr rfl⟩

/-- A name ends as the escape of its last character does. -/
theorem getLast_flatMap_nameChar {braced : Bool} {name : List Char} {c d : Char}
    (ends : name.getLast? = some c) (last : (nameChar braced c).getLast? = some d) :
    (name.flatMap (nameChar braced)).getLast? = some d := by
  obtain ⟨front, rfl⟩ := List.getLast?_eq_some_iff.1 ends
  rw [List.flatMap_append, List.flatMap_singleton, List.getLast?_append, last, Option.some_or]

theorem safeWord_name (role : NameRole) {text : String} (isName : k.isName text.toList = true) :
    (Lexeme.name role text).SafeWord k
      ((Lexeme.name role text).writtenText .webSafe .webSafe) := by
  rw [writtenText_name isName]
  have isWord := isWord_flatMap_nameChar role.isVariable isName
  have nonempty : text.toList ≠ [] := by
    intro empty
    rw [empty] at isName
    cases isName
  refine ⟨?_, fun _ => .inl isWord, .inl ⟨_, ?_, List.prefix_refl _, isWord.parts⟩⟩
  · have ends := List.getLast?_eq_some_getLast nonempty
    have continues := IdentifierClass.continues_of_isName isName _ (List.getLast_mem nonempty)
    obtain ⟨d, last, kind⟩ := getLast_nameChar role.isVariable continues
    refine ⟨d, getLast_flatMap_nameChar ends last, ?_⟩
    simpa [Lexeme.endsInBraces, ends] using kind
  · obtain ⟨c, rest, joined, -⟩ := isWord.first
    simp [joined]

theorem safeWord_number (value : Double) : (Lexeme.number value).SafeWord k
    ((Lexeme.number value).writtenText .webSafe .webSafe) := by
  show (Lexeme.number value).SafeWord k (value.literal true)
  rcases value.literal_cases true with ⟨noNumber, -⟩ | ⟨numeral, isNumeral, plain | ⟨signed, -⟩⟩
  · rw [noNumber]
    have isName : k.isName ['N', 'a', 'N'] = true :=
      isName_of_letters (by simp) (by decide)
    have isWord := isWord_of_isName isName
    exact ⟨⟨'N', rfl, .inr ⟨rfl, rfl⟩⟩, fun _ => .inl isWord,
      .inl ⟨_, by simp, List.prefix_refl _, isWord.parts⟩⟩
  · rw [plain]
    obtain ⟨d, ends, digit⟩ := isNumeral.last
    refine ⟨⟨d, ends, .inr ⟨rfl, isIdentifierPart_of_isDigit digit⟩⟩,
      fun _ => .inr ⟨isNumeral, rfl⟩, ?_⟩
    obtain ⟨c, rest, rfl, digit | rfl⟩ := isNumeral.head
    · have ascii : isAscii c = true ∧ (c.isAlphanum || c = '$' || c = '_') = true :=
        forall_digit (P := fun c => isAscii c = true ∧
          (c.isAlphanum || c = '$' || c = '_') = true) (by decide) digit
      have continues : k.continues c = true := by rw [k.continues_ascii c ascii.1, ascii.2]
      exact .inl ⟨[c], by simp, ⟨rest, rfl⟩, nameParts_of_continues (by simpa using continues)⟩
    · exact .inr ⟨value, rfl, by simp [isIdentifierPart, isAscii]⟩
  · rw [signed]
    obtain ⟨d, ends, digit⟩ := isNumeral.last
    refine ⟨⟨d, ?_, .inr ⟨rfl, isIdentifierPart_of_isDigit digit⟩⟩, fun unsigned => ?_,
      .inr ⟨value, rfl, by simp [isIdentifierPart, isAscii]⟩⟩
    · rw [List.getLast?_cons, ends]
      rfl
    · exact absurd rfl unsigned

theorem safeWord_keyword {text : String} (nonempty : text.toList ≠ [])
    (letters : ∀ c ∈ text.toList, isAscii c = true ∧ c.isAlpha = true) :
    (Lexeme.verbatim text).SafeWord k
      ((Lexeme.verbatim text).writtenText .webSafe .webSafe) := by
  have isName : k.isName text.toList = true := isName_of_letters nonempty letters
  have written : (Lexeme.verbatim text).writtenText .webSafe .webSafe = text.toList := by
    show sanitize text.toList = text.toList
    refine sanitize_of_plain fun c member => ?_
    obtain ⟨ascii, alpha⟩ := letters c member
    have continues := IdentifierClass.continues_of_isName isName c member
    exact ⟨ascii, (isPlain_of_continues continues).2⟩
  rw [written]
  have isWord := isWord_of_isName isName
  have ends := List.getLast?_eq_some_getLast nonempty
  exact ⟨⟨_, ends, .inr ⟨rfl, isIdentifierPart_getLast_of_isName isName ends⟩⟩,
    fun _ => .inl isWord, .inl ⟨_, nonempty, List.prefix_refl _, isWord.parts⟩⟩

/-- Every word that a program writes is a safe word. -/
theorem Lexeme.Known.safeWord {l : Lexeme} (h : l.Known (Leaf.Named k)) (word : l.isWord = true) :
    l.SafeWord k (l.writtenText .webSafe .webSafe) := by
  cases h with
  | @leaf leaf l admitted written =>
      cases leaf with
      | name role text =>
          cases written
          exact safeWord_name role admitted
      | key value =>
          simp only [Leaf.lexeme?, Option.some.injEq] at written
          subst written
          split
          · rename_i bare
            exact safeWord_name .key (admitted bare)
          · split
            · exact safeWord_number _
            · rename_i noName _ noNumber
              simp [noName, noNumber, isWord] at word
      | number value =>
          cases written
          exact safeWord_number value
      | template parts => cases written
      | _ =>
          cases written
          cases word
  | infinity => exact safeWord_number _
  | @fixed text known =>
      rcases fixedTexts_cases text known with rfl | punctuator | ⟨nonempty, letters⟩
      · exact absurd word (by decide)
      · have table : ∀ t ∈ punctuators, t.head?.any Char.isAlpha = false := by decide
        rw [isWord, table _ punctuator] at word
        cases word
      · exact safeWord_keyword nonempty letters
  | chunk => cases word

/-! ## Gaps between words -/

theorem Lexeme.SafeWord.nonempty {l : Lexeme} {text : List Char} (h : l.SafeWord k text) :
    text ≠ [] := by
  obtain ⟨last, ends, -⟩ := h.last
  rintro rfl
  cases ends

/-- A word that starts like a part of a name starts with one. -/
theorem Lexeme.SafeWord.parts_of_first {l : Lexeme} {text : List Char} (h : l.SafeWord k text)
    (part : text.head?.any isIdentifierPart = true) :
    ∃ front, front ≠ [] ∧ front <+: text ∧ Repeated (IsNamePart k) front := by
  rcases h.first with parts | ⟨value, -, noPart⟩
  · exact parts
  · obtain ⟨c, first, isPart⟩ := Option.any_eq_true _ _ |>.1 part
    rw [noPart c first] at isPart
    cases isPart

/-- A word ends neither in a sign nor in what could open a comment. -/
theorem Lexeme.SafeWord.last_foreign {l : Lexeme} {text : List Char} (h : l.SafeWord k text)
    {last : Char} (ends : text.getLast? = some last) :
    last ≠ '+' ∧ last ≠ '-' ∧ last ≠ '/' ∧ last ≠ '<' := by
  obtain ⟨d, ends', kind⟩ := h.last
  obtain rfl : d = last := Option.some.inj (ends'.symm.trans ends)
  rcases kind with ⟨-, rfl⟩ | ⟨-, part⟩
  · decide
  · refine ⟨?_, ?_, ?_, ?_⟩ <;>
      · rintro rfl
        cases part

/-- The stream sees that two words need a blank, unless the first ends in a brace. -/
theorem Stream.EndsIn.needsSeparator_word {s : Stream} {p q : Piece} (h : s.EndsIn p)
    (pWord : p.lexeme.SafeWord k p.text) (nonempty : q.text ≠ []) :
    s.needsSeparator q.text = (p.needsBlank q && !p.lexeme.endsInBraces) := by
  obtain ⟨last, ends, kind⟩ := pWord.last
  obtain ⟨plus, minus, slash, angle⟩ := pWord.last_foreign ends
  obtain ⟨before, written⟩ := h.written_eq ends
  obtain ⟨next, rest, text⟩ := List.exists_cons_of_ne_nil nonempty
  rw [text, needsSeparator_cons written, h.integer]
  simp only [Piece.needsBlank, text, List.head?_cons, Option.any_some, plus, minus, slash, angle,
    decide_false, Bool.false_and, Bool.or_false]
  rcases kind with ⟨braces, rfl⟩ | ⟨noBraces, part⟩
  · have mixed : p.text.all Char.isDigit = false :=
      List.all_eq_false.2 ⟨_, List.mem_of_getLast? ends, by decide⟩
    simp [braces, mixed, isIdentifierPart, isAscii]
  · simp [noBraces, part]

/-- No tag is spelled over the seam of two words that touch: a brace is part of no tag, and
what needs no blank after any other word is a number. -/
theorem Stream.EndsIn.not_formsOpener_word {s : Stream} {p q : Piece} (h : s.EndsIn p)
    (pWord : p.lexeme.SafeWord k p.text) (qWord : q.lexeme.SafeWord k q.text)
    (touching : s.needsSeparator q.text = false) :
    ((Layout.webSafe.forToken (q.lexeme.spell .webSafe)).safe &&
      formsOpenerAfter s.written q.text) = false := by
  obtain ⟨last, ends, kind⟩ := pWord.last
  obtain ⟨before, written⟩ := h.written_eq ends
  rcases kind with ⟨-, rfl⟩ | ⟨noBraces, -⟩
  · have noSeam := not_straddles_after (c := '\x7d') (by decide) before.reverse q.text
    have apart : formsOpenerAfter s.written q.text = false := by
      refine Bool.eq_false_iff.2 fun forms => noSeam ?_
      have straddles := formsOpenerAfter_eq_true_iff.1 forms
      rwa [written, List.reverse_cons] at straddles
    rw [apart, Bool.and_false]
  · rw [h.needsSeparator_word pWord qWord.nonempty, noBraces, Bool.not_false, Bool.and_true]
      at touching
    rcases qWord.first with ⟨front, nonempty, ⟨tail, joined⟩, parts⟩ | ⟨value, number, -⟩
    · obtain ⟨c, more, rfl⟩ := List.exists_cons_of_ne_nil nonempty
      have goesOn := isIdentifierPart_of_nameParts parts
      rw [Piece.needsBlank, ← joined] at touching
      simp [goesOn] at touching
    · rw [number]
      rfl

/-- The stream leaves a blank between words that need one, unless the first ends in a brace. -/
theorem Piece.Follows.gap_of_words {p q : Piece} (h : p.Follows .webSafe .webSafe q)
    (pWord : p.lexeme.SafeWord k p.text) (qWord : q.lexeme.SafeWord k q.text)
    (word : q.lexeme.isWord = true) :
    q.gap = if p.needsBlank q && !p.lexeme.endsInBraces then [' '] else [] := by
  rcases h with rfl | ⟨s, endsIn, quiet, gap⟩
  · exact absurd word (by decide)
  obtain ⟨noSpace, noBreak⟩ := quiet rfl
  have separates := endsIn.needsSeparator_word pWord qWord.nonempty
  have noOpener := endsIn.not_formsOpener_word pWord qWord
  rw [gap]
  unfold Stream.gap
  simp only [noSpace, noBreak, Bool.false_and, Bool.false_or, Bool.false_eq_true, if_false]
  cases separated : s.needsSeparator q.text with
  | true => rw [Bool.true_or, ← separates, separated]
  | false => rw [noOpener separated, ← separates, separated, Bool.or_false]

/-! ## Reading words -/

/-- The second word goes on with the first, and no blank keeps them apart. -/
def Piece.fuses (p q : Piece) : Bool := p.lexeme.endsInBraces && p.needsBlank q

/-- Compact output leaves one blank or none. -/
theorem Piece.Follows.gap_cases {p q : Piece} (h : p.Follows .webSafe .webSafe q) :
    q.gap = [] ∨ q.gap = [' '] := by
  rcases h with rfl | ⟨s, -, quiet, gap⟩
  · exact .inl rfl
  · obtain ⟨-, noBreak⟩ := quiet rfl
    rw [gap]
    unfold Stream.gap
    rw [noBreak, Bool.false_and, if_neg Bool.false_ne_true]
    split
    · exact .inr rfl
    · exact .inl rfl

/-- What is written after a word does not go on with it, if the next piece does not. -/
theorem Piece.Follows.stops {p q : Piece} (h : p.Follows .webSafe .webSafe q)
    (word : p.lexeme.SafeWord k p.text) (apart : p.fuses q = false) (nonempty : q.text ≠ [])
    (tail : List Char) : ∀ c ∈ (q.gap ++ q.text ++ tail).head?,
      isIdentifierPart c = false ∧ (c = '.' → p.text.all Char.isDigit = false) := by
  rcases h.gap_cases with touching | blank
  · obtain ⟨next, rest, text⟩ := List.exists_cons_of_ne_nil nonempty
    obtain ⟨last, ends, kind⟩ := word.last
    have newLine : Layout.webSafe.newLine ≠ [] := by decide
    have border := h.border newLine touching ends (by rw [text]; rfl)
    rw [touching, text]
    intro c first
    obtain rfl : next = c := by simpa using first
    refine ⟨?_, border.point⟩
    rcases kind with ⟨braces, -⟩ | ⟨-, part⟩
    · simp only [fuses, braces, needsBlank, text, List.head?_cons, Option.any_some, Bool.true_and,
        Bool.or_eq_false_iff] at apart
      exact apart.1
    · exact border.words part
  · rw [blank]
    intro c first
    obtain rfl : ' ' = c := by simpa using first
    exact ⟨rfl, fun point => by cases point⟩

/-- A word is read as it was written when nothing goes on with it. -/
theorem Lexeme.SafeWord.isLongest {l : Lexeme} {text rest : List Char} (h : l.SafeWord k text)
    (unsigned : text.head? ≠ some '-')
    (stops : ∀ c ∈ rest.head?,
      isIdentifierPart c = false ∧ (c = '.' → text.all Char.isDigit = false)) :
    IsLongest k false text rest := by
  rcases h.element unsigned with word | ⟨number, -⟩
  · exact isLongest_word word fun c first => (stops c first).1
  · refine isLongest_number number fun c first => ⟨(stops c first).1, fun point digits => ?_⟩
    have mixed := (stops c first).2 point
    rw [List.all_eq_true.2 digits] at mixed
    cases mixed

/-- The second of two words that fuse is read as a part of the first. -/
theorem Piece.not_isLongest_of_fuses {p q : Piece} (pWord : p.lexeme.SafeWord k p.text)
    (qWord : q.lexeme.SafeWord k q.text) (unsigned : p.text.head? ≠ some '-')
    (fused : p.fuses q = true) (tail : List Char) :
    ¬ IsLongest k false p.text (q.text ++ tail) := by
  simp only [fuses, Bool.and_eq_true] at fused
  obtain ⟨braces, goesOn⟩ := fused
  intro longest
  have word : IsWord k p.text := by
    rcases pWord.element unsigned with word | ⟨-, noBraces⟩
    · exact word
    · rw [braces] at noBraces
      cases noBraces
  have mixed : p.text.all Char.isDigit = false := by
    obtain ⟨c, rest, text, starts⟩ := word.first
    refine Bool.eq_false_iff.2 fun digits => ?_
    rw [text, List.all_cons, Bool.and_eq_true] at digits
    exact not_startsWord (.inl digits.1) starts
  have part : q.text.head?.any isIdentifierPart = true := by
    simpa [needsBlank, mixed] using goesOn
  obtain ⟨front, nonempty, ⟨rest, text⟩, parts⟩ := qWord.parts_of_first part
  refine longest.longest front nonempty ⟨rest ++ tail, ?_⟩ (.word ⟨?_, word.parts.append parts⟩)
  · rw [← text, List.append_assoc]
  · obtain ⟨c, more, text, starts⟩ := word.first
    exact ⟨c, more ++ front, by rw [text, List.cons_append], starts⟩

/-! ## Scripts -/

namespace Node

theorem webSafe_eq_joined (program : Program) :
    program.webSafe = Piece.joined (program.pieces .webSafe .webSafe) := by
  have ending : Stream.ending .webSafe (Piece.joined (program.pieces .webSafe .webSafe)) = [] := rfl
  show program.render .webSafe .webSafe = _
  rw [render_eq_joined, ending, List.append_nil]

/-- **The gap between two words in a row** in safe output: a blank where the second would go on
with the first, unless the first is the name of a variable that ends in a brace.

A reader takes the first word for what it was written, except where the blank is missing.  The
second it takes for what it was written unless a third goes on with it in the same way.  A
number with a sign in front is two elements to a reader. -/
theorem gap_between_words {program : Program} (named : ∀ leaf ∈ program.leaves, leaf.Named k)
    {before after : List Piece} {p q : Piece}
    (neighbours : program.pieces .webSafe .webSafe = before ++ p :: q :: after)
    (word : p.lexeme.isWord = true) (nextWord : q.lexeme.isWord = true) :
    q.gap = (if p.needsBlank q && !p.lexeme.endsInBraces then [' '] else []) ∧
      ∃ rest, program.webSafe = Piece.joined before ++ p.gap ++ p.text ++ (q.gap ++ q.text ++ rest) ∧
        (p.text.head? ≠ Option.some '-' →
          (IsLongest k false p.text (q.gap ++ q.text ++ rest) ↔ p.fuses q = false)) ∧
        (q.text.head? ≠ Option.some '-' → (∀ r ∈ after.head?, q.fuses r = false) →
          IsLongest k false q.text rest) := by
  have safeWord (piece : Piece) (h : piece ∈ program.pieces .webSafe .webSafe)
      (isWord : piece.lexeme.isWord = true) : piece.lexeme.SafeWord k piece.text := by
    obtain ⟨known, text, -⟩ := known_of_mem_pieces named .webSafe .webSafe piece h
    rw [text]
    exact known.safeWord isWord
  have pWord := safeWord p (by simp [neighbours]) word
  have qWord := safeWord q (by simp [neighbours]) nextWord
  have chain := isChain_pieces .webSafe .webSafe program
  rw [neighbours, List.isChain_append_cons_cons] at chain
  obtain ⟨-, follows, later⟩ := chain
  have gap := follows.gap_of_words pWord qWord nextWord
  refine ⟨gap, Piece.joined after, ?_, fun unsigned => ⟨fun longest => ?_, fun apart => ?_⟩,
    fun unsigned apart => ?_⟩
  · rw [webSafe_eq_joined, neighbours]
    simp
  · by_contra fuses
    have fused : p.fuses q = true := by simpa using fuses
    have touching : q.gap = [] := by
      simp only [Piece.fuses, Bool.and_eq_true] at fused
      rw [gap, fused.1]
      simp
    rw [touching, List.nil_append] at longest
    exact Piece.not_isLongest_of_fuses pWord qWord unsigned fused _ longest
  · exact pWord.isLongest unsigned (follows.stops pWord apart qWord.nonempty _)
  · refine qWord.isLongest unsigned ?_
    cases after with
    | nil => exact fun c first => by cases first
    | cons r after =>
        obtain ⟨-, -, nonempty⟩ := known_of_mem_pieces named .webSafe .webSafe r (by simp [neighbours])
        have goesOn := List.rel_of_isChain_cons_cons later
        rw [Piece.joined_cons]
        exact goesOn.stops qWord (apart r rfl) nonempty _

/-- A comparison by `in` whose left operand is named by a single character beyond U+FFFF. -/
def membershipOfIdeograph : Program :=
  .script .nil (.cons (.evaluate (.binary (.identifier (.usedName "𠀀")) .isIn
    (.identifier (.usedName "b")))) .nil)

/-- The name and the keyword touch, and a reader takes them for one word. -/
theorem not_isLongest_membershipOfIdeograph :
    (∀ leaf ∈ membershipOfIdeograph.leaves, leaf.Named .ofTables) ∧
      ∃ rest, membershipOfIdeograph.webSafe = "\\u\x7b20000\x7d".toList ++ ("in".toList ++ rest) ∧
        ¬ IsLongest .ofTables false "\\u\x7b20000\x7d".toList ("in".toList ++ rest) := by
  have named : ∀ leaf ∈ membershipOfIdeograph.leaves, leaf.Named .ofTables := by
    show ∀ leaf ∈ [Leaf.name .used "𠀀", .name .used "b"], leaf.Named .ofTables
    have first : IdentifierClass.ofTables.isName "𠀀".toList = true := by decide +kernel
    have second : IdentifierClass.ofTables.isName "b".toList = true := by decide
    simp only [List.forall_mem_cons]
    exact ⟨first, second, by simp⟩
  have neighbours : membershipOfIdeograph.pieces .webSafe .webSafe =
      [] ++ ⟨.name .used "𠀀", [], "\\u\x7b20000\x7d".toList⟩ ::
        ⟨.verbatim "in", [], "in".toList⟩ ::
          [⟨.name .used "b", [' '], ['b']⟩, .semicolon] := by
    decide +kernel
  obtain ⟨-, rest, written, first, -⟩ := gap_between_words named neighbours (by decide) (by decide)
  refine ⟨named, rest, written, fun longest => ?_⟩
  have apart := (first (by decide)).1 longest
  exact absurd apart (by decide)

end Node

end EcmaScribe
