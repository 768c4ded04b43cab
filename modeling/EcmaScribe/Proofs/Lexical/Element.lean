/-
# EcmaScribe.Proofs.Lexical.Element -- the lexical elements of the language

What a reader of a script takes for one token: a word, a number, a string, a regular
expression with its flags, a punctuator, or the opening of a comment.  The rules are those of
the 2017 edition of the language, with its additions for old scripts.  Whether a slash divides
or opens a regular expression is not a lexical matter, so the rules take the answer as a
parameter.

`IsLongest` says which element a reader takes that goes for the longest one.
-/
import EcmaScribe.Proofs.Number.Literal
import EcmaScribe.Proofs.Text.Identifier
import EcmaScribe.Text.Hexadecimal
import EcmaScribe.Text.Sanitize

namespace EcmaScribe

set_option autoImplicit false

namespace Lexical

/-! ## Characters and repetition -/

def isHexDigit (c : Char) : Bool := (Text.hexValue? c).isSome

def isOctalDigit (c : Char) : Bool := decide ('0' ≤ c) && decide (c ≤ '7')

def isLineTerminator (c : Char) : Bool := c = '\n' || c = '\x0d' || Text.isLineSeparator c

def IsQuote (c : Char) : Prop := c = '\x27' ∨ c = '\x22'

instance (c : Char) : Decidable (IsQuote c) :=
  inferInstanceAs (Decidable (c = '\x27' ∨ c = '\x22'))

/-- Any number of parts, one after another. -/
inductive Repeated (Part : List Char → Prop) : List Char → Prop
  | nil : Repeated Part []
  | cons {part rest : List Char} (first : Part part) (more : Repeated Part rest) :
      Repeated Part (part ++ rest)

/-! ## Words -/

/-- A Unicode escape. -/
inductive IsEscape : List Char → Prop
  | fixed {a b c d : Char} (digits : ∀ e ∈ [a, b, c, d], isHexDigit e = true) :
      IsEscape ['\\', 'u', a, b, c, d]
  | braced {ds : List Char} (nonempty : ds ≠ []) (digits : ∀ e ∈ ds, isHexDigit e = true) :
      IsEscape ('\\' :: 'u' :: '\x7b' :: (ds ++ ['\x7d']))

/-- A character of a word, perhaps as an escape. -/
inductive IsNamePart (k : IdentifierClass) : List Char → Prop
  | char {c : Char} (continues : k.continues c = true) : IsNamePart k [c]
  | escape {e : List Char} (isEscape : IsEscape e) : IsNamePart k e

/-- A name or a keyword. -/
structure IsWord (k : IdentifierClass) (text : List Char) : Prop where
  first : ∃ c rest, text = c :: rest ∧ (k.starts c = true ∨ c = '\\')
  parts : Repeated (IsNamePart k) text

/-! ## Numbers -/

/-- The digits before a point.  A zero stands in front of others only if one of them tells
that the digits are no octal ones. -/
structure IsWhole (ds : List Char) : Prop where
  nonempty : ds ≠ []
  digits : IsDigits ds
  leading : ds.head? = some '0' → ds = ['0'] ∨ ∃ d ∈ ds, isOctalDigit d = false

inductive IsExponentPart : List Char → Prop
  | none : IsExponentPart []
  | digits {mark : Char} {sign ds : List Char} (marked : mark = 'e' ∨ mark = 'E')
      (signed : sign = [] ∨ sign = ['+'] ∨ sign = ['-']) (nonempty : ds ≠ [])
      (digits : IsDigits ds) : IsExponentPart (mark :: (sign ++ ds))

/-- The letters that announce a base, with the digits of the base. -/
def radixMarks : List (List Char × (Char → Bool)) :=
  [(['b', 'B'], fun c => c = '0' || c = '1'), (['o', 'O'], isOctalDigit), (['x', 'X'], isHexDigit)]

inductive IsNumber : List Char → Prop
  | whole {whole exponent : List Char} (isWhole : IsWhole whole)
      (isExponent : IsExponentPart exponent) : IsNumber (whole ++ exponent)
  | point {whole fraction exponent : List Char} (isWhole : IsWhole whole)
      (digits : IsDigits fraction) (isExponent : IsExponentPart exponent) :
      IsNumber (whole ++ '.' :: (fraction ++ exponent))
  | fraction {fraction exponent : List Char} (nonempty : fraction ≠ [])
      (digits : IsDigits fraction) (isExponent : IsExponentPart exponent) :
      IsNumber ('.' :: (fraction ++ exponent))
  | radix {marks : List Char} {isDigit : Char → Bool} {mark : Char} {ds : List Char}
      (base : (marks, isDigit) ∈ radixMarks) (marked : mark ∈ marks) (nonempty : ds ≠ [])
      (digits : ∀ d ∈ ds, isDigit d = true) : IsNumber ('0' :: mark :: ds)
  | octal {ds : List Char} (nonempty : ds ≠ []) (digits : ∀ d ∈ ds, isOctalDigit d = true) :
      IsNumber ('0' :: ds)

/-! ## Strings -/

inductive IsStringPart (quote : Char) : List Char → Prop
  | plain {c : Char} (other : c ≠ quote) (noEscape : c ≠ '\\')
      (noBreak : isLineTerminator c = false) : IsStringPart quote [c]
  | escaped {c : Char} (noBreak : isLineTerminator c = false) (noDigit : c.isDigit = false)
      (noMark : c ≠ 'x' ∧ c ≠ 'u') : IsStringPart quote ['\\', c]
  | octal {c : Char} (digit : isOctalDigit c = true) : IsStringPart quote ['\\', c]
  | hexadecimal {c d : Char} (first : isHexDigit c = true) (second : isHexDigit d = true) :
      IsStringPart quote ['\\', 'x', c, d]
  | unicode {e : List Char} (isEscape : IsEscape e) : IsStringPart quote e
  /-- A line that goes on after its end. -/
  | continued {c : Char} (lineBreak : isLineTerminator c = true) : IsStringPart quote ['\\', c]
  | continuedPair : IsStringPart quote ['\\', '\x0d', '\n']

def IsStringBody (quote : Char) : List Char → Prop := Repeated (IsStringPart quote)

inductive IsString : List Char → Prop
  | quoted {quote : Char} {body : List Char} (isQuote : IsQuote quote)
      (isBody : IsStringBody quote body) : IsString (quote :: (body ++ [quote]))

/-! ## Regular expressions -/

inductive IsClassPart : List Char → Prop
  | char {c : Char} (noEnd : c ≠ ']') (noEscape : c ≠ '\\')
      (noBreak : isLineTerminator c = false) : IsClassPart [c]
  | escaped {c : Char} (noBreak : isLineTerminator c = false) : IsClassPart ['\\', c]

inductive IsPatternPart : List Char → Prop
  | char {c : Char} (noEnd : c ≠ '/') (noClass : c ≠ '[') (noEscape : c ≠ '\\')
      (noBreak : isLineTerminator c = false) : IsPatternPart [c]
  | escaped {c : Char} (noBreak : isLineTerminator c = false) : IsPatternPart ['\\', c]
  | class {body : List Char} (isBody : Repeated IsClassPart body) :
      IsPatternPart ('[' :: (body ++ [']']))

/-- The text between the slashes. -/
structure IsPattern (pattern : List Char) : Prop where
  nonempty : pattern ≠ []
  noComment : pattern.head? ≠ some '*'
  parts : Repeated IsPatternPart pattern

inductive IsRegExp (k : IdentifierClass) : List Char → Prop
  | literal {pattern flags : List Char} (isPattern : IsPattern pattern)
      (isFlags : Repeated (IsNamePart k) flags) : IsRegExp k ('/' :: (pattern ++ '/' :: flags))

/-! ## Elements -/

def punctuators : List (List Char) :=
  [['\x7b'], ['\x7d'], ['('], [')'], ['['], [']'], ['.'], ['.', '.', '.'], [';'], [','],
    ['<'], ['>'], ['<', '='], ['>', '='], ['=', '='], ['!', '='], ['=', '=', '='], ['!', '=', '='],
    ['+'], ['-'], ['*'], ['/'], ['%'], ['*', '*'], ['+', '+'], ['-', '-'],
    ['<', '<'], ['>', '>'], ['>', '>', '>'], ['&'], ['|'], ['^'], ['!'], ['~'],
    ['&', '&'], ['|', '|'], ['?'], [':'], ['='], ['+', '='], ['-', '='], ['*', '='], ['/', '='],
    ['%', '='], ['*', '*', '='], ['<', '<', '='], ['>', '>', '='], ['>', '>', '>', '='],
    ['&', '='], ['|', '='], ['^', '='], ['=', '>']]

def commentOpeners : List (List Char) := [['/', '/'], ['/', '*'], ['<', '!', '-', '-']]

/-- One lexical element.  `slash` tells that a slash in front opens a regular expression. -/
inductive IsElement (k : IdentifierClass) (slash : Bool) : List Char → Prop
  | word {text : List Char} (h : IsWord k text) : IsElement k slash text
  | number {text : List Char} (h : IsNumber text) : IsElement k slash text
  | string {text : List Char} (h : IsString text) : IsElement k slash text
  | regExp {text : List Char} (h : IsRegExp k text) (opens : slash = true) :
      IsElement k slash text
  | punctuator {text : List Char} (h : text ∈ punctuators)
      (divides : slash = true → text.head? ≠ some '/') : IsElement k slash text
  | comment {text : List Char} (h : text ∈ commentOpeners) : IsElement k slash text

/-- `text` is the longest element at the front of `text ++ rest`. -/
structure IsLongest (k : IdentifierClass) (slash : Bool) (text rest : List Char) : Prop where
  element : IsElement k slash text
  longest : ∀ more, more ≠ [] → more <+: rest → ¬ IsElement k slash (text ++ more)

end Lexical

end EcmaScribe
