/-
# EcmaScribe.Text.Quoted -- string literals and directives

A string literal takes the delimiter that occurs less often in the value, the
double quote when both occur as often, and escapes the delimiter, the backslash,
the controls, and the two separators U+2028 and U+2029, which older readers take
for line ends.  NUL is written in two digits because `\0` before a digit is read as
an octal escape.

A directive is written as it stands in the source, so only its delimiter is
chosen: a single quote when the text holds a double quote that no backslash
escapes.
-/
import EcmaScribe.Text.Hexadecimal

namespace EcmaScribe

set_option autoImplicit false

namespace Text

/-- The delimiter of a string literal with the given value. -/
def delimiterFor (value : List Char) : Char :=
  if value.count '\x27' < value.count '\x22' then '\x27' else '\x22'

/-- A character as it stands inside a string literal. -/
def literalChar (delimiter c : Char) : List Char :=
  if c = '\x08' then ['\\', 'b']
  else if c = '\x09' then ['\\', 't']
  else if c = '\x0a' then ['\\', 'n']
  else if c = '\x0b' then ['\\', 'v']
  else if c = '\x0c' then ['\\', 'f']
  else if c = '\x0d' then ['\\', 'r']
  else if c = '\\' then ['\\', '\\']
  else if c = '\u2028' ∨ c = '\u2029' then '\\' :: 'u' :: hexFixed .upper 4 c.toNat
  else if c = '\x00' then ['\\', 'x', '0', '0']
  else if c = delimiter then ['\\', c]
  else if c.toNat < 32 ∨ c = '\x7f' then '\\' :: 'u' :: hexFixed .upper 4 c.toNat
  else [c]

/-- The string literal with the given value. -/
def stringLiteral (value : List Char) : List Char :=
  let delimiter := delimiterFor value
  delimiter :: value.flatMap (literalChar delimiter) ++ [delimiter]

/-- Whether a raw text holds a double quote that no backslash escapes. -/
def hasBareDoubleQuote : List Char → Bool
  | '\\' :: _ :: rest => hasBareDoubleQuote rest
  | c :: rest => c = '\x22' || hasBareDoubleQuote rest
  | [] => false

/-- The delimiter of a directive with the given raw text. -/
def directiveDelimiter (raw : List Char) : Char :=
  if hasBareDoubleQuote raw then '\x27' else '\x22'

end Text

end EcmaScribe
