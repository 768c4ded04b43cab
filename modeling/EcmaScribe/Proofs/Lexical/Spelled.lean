/-
# EcmaScribe.Proofs.Lexical.Spelled -- every lexeme is an element

In readable and in compact output the text of a lexeme is the source's own text, so it is an
element when that text is well formed.  Names have to be names, numbers numbers without a sign,
and the raw texts of directives and regular expressions must hold nothing that would end them.
Strings and module specifiers may hold anything, for their escapes are chosen here.
-/
import EcmaScribe.Proofs.Fragment.Adjacent
import EcmaScribe.Proofs.Layout.Pieces
import EcmaScribe.Proofs.Lexical.Longest

namespace EcmaScribe

set_option autoImplicit false

open Text Lexical

/-! ## Well-formed source text -/

/-- Source text that is well formed, one token at a time. -/
def Leaf.WellFormed (k : IdentifierClass) : Leaf → Prop
  | name _ text => k.isName text.toList = true
  | key value => isIdentifierName value.toList = true → k.isName value.toList = true
  | number value => value.isFinite = true ∧ (value.isNegative = false ∨ value.isZero = true)
  | regExp pattern flags => IsPattern pattern.toList ∧ ∀ c ∈ flags.toList, k.continues c = true
  | directive raw => IsStringBody (directiveDelimiter raw.toList) raw.toList
  | string _ | specifier _ | template _ => True

namespace Lexeme

/-- Text of a template, or its delimiter. -/
def isTemplateText : Lexeme → Bool
  | chunk .. => true
  | verbatim text => text = "\x60"
  | _ => false

def isChunk : Lexeme → Bool
  | chunk .. => true
  | _ => false

def isRegExp : Lexeme → Bool
  | regExp .. => true
  | _ => false

/-- What kind of element the text of a lexeme is. -/
inductive Spelled (k : IdentifierClass) : Lexeme → List Char → Prop
  | word {l : Lexeme} {text : List Char} (isName : k.isName text = true)
      (noRegExp : l.isRegExp = false) : Spelled k l text
  | number {value : Double} {text : List Char} (isNumeral : IsNumeral text) :
      Spelled k (.number value) text
  | string {l : Lexeme} {text : List Char} (isString : IsString text)
      (noRegExp : l.isRegExp = false) (noProperty : l.isProperty = false) : Spelled k l text
  | regExp {pattern flags : String} (isPattern : IsPattern pattern.toList)
      (isFlags : ∀ c ∈ flags.toList, k.continues c = true) :
      Spelled k (.regExp pattern flags) ('/' :: (pattern.toList ++ '/' :: flags.toList))
  | punctuator {text : String} (known : text ∈ fixedTexts) (h : text.toList ∈ punctuators) :
      Spelled k (.verbatim text) text.toList

end Lexeme

/-! ## Strings -/

variable {k : IdentifierClass}

theorem isHexDigit_hexDigit (n : Nat) : isHexDigit (hexDigit .upper (n % 16)) = true := by
  have table : ∀ value < 16, isHexDigit (hexDigit .upper value) = true := by decide
  exact table _ (Nat.mod_lt n (by decide))

theorem isEscape_hexFixed (n : Nat) : IsEscape ('\\' :: 'u' :: hexFixed .upper 4 n) := by
  refine .fixed fun e member => ?_
  simp only [List.mem_cons, List.not_mem_nil, or_false] at member
  rcases member with rfl | rfl | rfl | rfl <;> exact isHexDigit_hexDigit _

/-- A character of a value is written as one part of a string. -/
theorem isStringPart_literalChar {quote : Char} (isQuote : IsQuote quote) (c : Char) :
    IsStringPart quote (literalChar quote c) := by
  have letter {d : Char} (known : d ∈ ['b', 't', 'n', 'v', 'f', 'r', '\\', '\x27', '\x22']) :
      IsStringPart quote ['\\', d] := by
    have table : ∀ d ∈ ['b', 't', 'n', 'v', 'f', 'r', '\\', '\x27', '\x22'],
        isLineTerminator d = false ∧ d.isDigit = false ∧ d ≠ 'x' ∧ d ≠ 'u' := by decide
    obtain ⟨noBreak, noDigit, noMark⟩ := table d known
    exact .escaped noBreak noDigit noMark
  unfold literalChar
  refine iteInduction (fun _ => letter (by decide)) fun _ => ?_
  refine iteInduction (fun _ => letter (by decide)) fun _ => ?_
  refine iteInduction (fun _ => letter (by decide)) fun noLineFeed => ?_
  refine iteInduction (fun _ => letter (by decide)) fun _ => ?_
  refine iteInduction (fun _ => letter (by decide)) fun _ => ?_
  refine iteInduction (fun _ => letter (by decide)) fun noReturn => ?_
  refine iteInduction (fun _ => letter (by decide)) fun noBackslash => ?_
  refine iteInduction (fun _ => .unicode (isEscape_hexFixed _)) fun noSeparator => ?_
  refine iteInduction (fun _ => .hexadecimal (by decide) (by decide)) fun _ => ?_
  refine iteInduction (fun same => ?_) fun other => ?_
  · rw [same]
    rcases isQuote with rfl | rfl
    · exact letter (by decide)
    · exact letter (by decide)
  refine iteInduction (fun _ => .unicode (isEscape_hexFixed _)) fun _ => ?_
  refine .plain other noBackslash ?_
  simpa [isLineTerminator, isLineSeparator, noLineFeed, noReturn] using noSeparator

/-- The literal of any value is a string. -/
theorem isString_stringLiteral (value : List Char) : IsString (stringLiteral value) := by
  have isQuote : IsQuote (delimiterFor value) := delimiterFor_cases value
  show IsString (delimiterFor value ::
    (value.flatMap (literalChar (delimiterFor value)) ++ [delimiterFor value]))
  generalize delimiterFor value = quote at isQuote
  refine .quoted isQuote ?_
  induction value with
  | nil => exact .nil
  | cons c rest ih =>
      rw [List.flatMap_cons]
      exact .cons (isStringPart_literalChar isQuote c) ih

/-! ## Lexemes -/

/-- Letters alone are a name. -/
theorem isName_of_letters {text : List Char} (nonempty : text ≠ [])
    (letters : ∀ c ∈ text, isAscii c = true ∧ c.isAlpha = true) : k.isName text = true := by
  have continues (c : Char) (member : c ∈ text) : k.starts c = true ∧ k.continues c = true := by
    obtain ⟨ascii, alpha⟩ := letters c member
    have starts : k.starts c = true := by rw [k.starts_ascii c ascii, alpha]; rfl
    exact ⟨starts, k.continues_of_starts c starts⟩
  cases text with
  | nil => exact absurd rfl nonempty
  | cons c rest =>
      simp only [IdentifierClass.isName, Bool.and_eq_true, List.all_eq_true]
      exact ⟨(continues c (by simp)).1, fun d member => (continues d (by simp [member])).2⟩

/-- A fixed text is a keyword or a punctuator. -/
theorem fixedTexts_cases : ∀ text ∈ fixedTexts, text = "\x60" ∨ text.toList ∈ punctuators ∨
    (text.toList ≠ [] ∧ ∀ c ∈ text.toList, isAscii c = true ∧ c.isAlpha = true) := by
  decide +kernel

variable {layout : Layout}

theorem writtenText_eq (raw : layout.safe = false) (l : Lexeme) :
    l.writtenText .plain layout = match l.spell .plain with
      | .text chars => chars
      | .number value => value.literal layout.compact := by
  unfold Lexeme.writtenText Token.writtenText
  cases l.spell .plain with
  | text chars => simp [raw]
  | number value => rfl

/-- The lexeme that is written for a well-formed leaf. -/
theorem Leaf.WellFormed.spelled {leaf : Leaf} (h : leaf.WellFormed k) (raw : layout.safe = false)
    {l : Lexeme} (written : leaf.lexeme? = some l) : l.Spelled k (l.writtenText .plain layout) := by
  rw [writtenText_eq raw]
  cases leaf with
  | name role text =>
      cases written
      cases role <;> exact .word h rfl
  | key value =>
      simp only [Leaf.lexeme?, Option.some.injEq] at written
      subst written
      split
      · rename_i bare
        exact .word (h bare) rfl
      · split
        · rename_i double key
          obtain ⟨finite, nonnegative⟩ := Double.nonnegative_of_ofKey? key
          exact .number (Double.isNumeral_literal (Double.isNaN_of_isFinite finite) nonnegative _)
        · exact .string (isString_stringLiteral _) rfl rfl
  | number value =>
      cases written
      exact .number (Double.isNumeral_literal (Double.isNaN_of_isFinite h.1) h.2 _)
  | string value =>
      cases written
      exact .string (isString_stringLiteral _) rfl rfl
  | specifier value =>
      cases written
      exact .string (isString_stringLiteral _) rfl rfl
  | regExp pattern flags =>
      cases written
      have text : '/' :: (pattern.toList ++ ['/']) ++ flags.toList =
          '/' :: (pattern.toList ++ '/' :: flags.toList) := by simp
      show Lexeme.Spelled k _ ('/' :: (pattern.toList ++ ['/']) ++ flags.toList)
      rw [text]
      exact .regExp h.1 h.2
  | directive raw =>
      cases written
      exact .string (.quoted (directiveDelimiter_cases _) h) rfl rfl
  | template parts => cases written

/-- **Every lexeme of well-formed leaves is spelled as an element**, template text apart. -/
theorem Lexeme.Known.spelled {l : Lexeme} (h : l.Known (Leaf.WellFormed k))
    (code : l.isTemplateText = false) (raw : layout.safe = false) :
    l.Spelled k (l.writtenText .plain layout) := by
  cases h with
  | leaf admitted written => exact admitted.spelled raw written
  | infinity =>
      rw [writtenText_eq raw]
      exact .number (Double.isNumeral_literal (by decide) (.inl (by decide)) _)
  | @fixed text known =>
      rw [writtenText_eq raw]
      rcases fixedTexts_cases text known with backtick | punctuator | ⟨nonempty, letters⟩
      · simp [isTemplateText, backtick] at code
      · exact .punctuator known punctuator
      · exact .word (isName_of_letters nonempty letters) rfl
  | chunk => cases code

/-- A lexeme without text is blank, and only such a one. -/
theorem writtenText_eq_nil_iff (raw : layout.safe = false) (l : Lexeme) :
    l.writtenText .plain layout = [] ↔ l.isBlank = true := by
  rw [writtenText_eq raw]
  cases l with
  | verbatim text => simp [Lexeme.spell, Lexeme.isBlank]
  | name role text => cases role <;> simp [Lexeme.spell, Lexeme.isBlank, Spelling.variableName, NameRole.isVariable]
  | number value =>
      obtain ⟨c, rest, written, -⟩ := value.literal_head (P := fun _ => True) (by simp) (by simp)
        layout.compact
      simp [Lexeme.spell, Lexeme.isBlank, written]
  | string value => simp [Lexeme.spell, Lexeme.isBlank, Spelling.literalText, stringLiteral]
  | quoted value => simp [Lexeme.spell, Lexeme.isBlank, stringLiteral]
  | regExp pattern flags => simp [Lexeme.spell, Lexeme.isBlank, Lexeme.regExpText]
  | chunk follows leads raw =>
      cases follows <;> cases leads <;>
        simp [Lexeme.spell, Lexeme.isBlank, Lexeme.chunkText, Spelling.literalText]
  | directive raw => simp [Lexeme.spell, Lexeme.isBlank, Lexeme.directiveText]

/-- Well-formed leaves are not blank. -/
theorem Leaf.WellFormed.isBlank_eq_false {leaf : Leaf} (h : leaf.WellFormed k) {l : Lexeme}
    (written : leaf.lexeme? = some l) : l.isBlank = false := by
  have ofName {text : String} (isName : k.isName text.toList = true) : text.isEmpty = false := by
    rw [Bool.eq_false_iff, ne_eq, String.isEmpty_iff]
    rintro rfl
    cases isName
  cases leaf with
  | name role text =>
      cases written
      exact ofName h
  | key value =>
      simp only [Leaf.lexeme?, Option.some.injEq] at written
      subst written
      split
      · rename_i bare
        exact ofName (h bare)
      · split <;> rfl
  | _ => cases written <;> rfl

end EcmaScribe
