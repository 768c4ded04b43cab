/-
# EcmaScribe.Fragment.Lexeme -- the tokens of a script before they are spelled

A lexeme says what a token stands for, so that one tree of fragments serves both
spellings of a script.  The plain spelling writes names and literals as they are; the
web-safe spelling sanitizes what comes from the source: the names of variables,
strings, regular expressions, template chunks and directives.  All other lexemes are
spelled alike.
-/
import EcmaScribe.Number.Numeral
import EcmaScribe.Text.Quoted
import EcmaScribe.Text.Sanitize

namespace EcmaScribe

set_option autoImplicit false

/-- What a bare name stands for. -/
inductive NameRole
  | bound | used | assigned
  | member | label | specifier | key
  deriving DecidableEq, Repr

/-- The roles in which a name refers to a variable. -/
def NameRole.isVariable : NameRole → Bool
  | bound | used | assigned => true
  | member | label | specifier | key => false

inductive Lexeme
  /-- Keywords, operators and delimiters. -/
  | verbatim (text : String)
  | name (role : NameRole) (text : String)
  | number (value : Double)
  /-- A string literal that is an expression. -/
  | string (value : String)
  /-- A module specifier, or a property key that is no name. -/
  | quoted (value : String)
  | regExp (pattern flags : String)
  /-- Template text; `follows` and `leads` tell whether a substitution stands before and
  after it. -/
  | chunk (follows leads : Bool) (raw : String)
  | directive (raw : String)
  deriving DecidableEq, Repr

/-- A spelled token.  The text of a number is up to the layout. -/
inductive Token
  | text (chars : List Char)
  | number (value : Double)
  deriving DecidableEq, Repr

inductive Spelling
  | plain
  | webSafe
  deriving DecidableEq, Repr

namespace Spelling

/-- Text that comes from the source, as the spelling writes it. -/
def literalText : Spelling → List Char → List Char
  | plain => id
  | webSafe => Text.sanitize

def variableName : Spelling → List Char → List Char
  | plain => id
  | webSafe => Text.sanitizeName

end Spelling

namespace Lexeme

/-- A name that would be read as a declaration keyword at the start of a statement. -/
def isLet : Lexeme → Bool
  | name role text => role.isVariable && text = "let"
  | _ => false

/-- Whether the lexeme is spelled as the empty text. -/
def isBlank : Lexeme → Bool
  | verbatim text => text.isEmpty
  | name _ text => text.isEmpty
  | chunk follows leads raw => !follows && !leads && raw.isEmpty
  | number _ | string _ | quoted _ | regExp .. | directive _ => false

/-- The text of a regular expression.  Its closing slash takes part in sanitizing, so that
a pattern that ends in a tag opener is caught. -/
def regExpText (spelling : Spelling) (pattern flags : List Char) : List Char :=
  '/' :: spelling.literalText (pattern ++ ['/']) ++ flags

def chunkText (spelling : Spelling) (follows leads : Bool) (raw : List Char) : List Char :=
  (if follows then ['\x7d'] else []) ++ spelling.literalText raw ++
    (if leads then ['$', '\x7b'] else [])

/-- The delimiter is chosen for the text as it stands in the source. -/
def directiveText (spelling : Spelling) (raw : List Char) : List Char :=
  let delimiter := Text.directiveDelimiter raw
  delimiter :: spelling.literalText raw ++ [delimiter]

def spell (spelling : Spelling) : Lexeme → Token
  | verbatim text => .text text.toList
  | name role text =>
      .text (if role.isVariable then spelling.variableName text.toList else text.toList)
  | number value => .number value
  | string value => .text (spelling.literalText (Text.stringLiteral value.toList))
  | quoted value => .text (Text.stringLiteral value.toList)
  | regExp pattern flags => .text (regExpText spelling pattern.toList flags.toList)
  | chunk follows leads raw => .text (chunkText spelling follows leads raw.toList)
  | directive raw => .text (directiveText spelling raw.toList)

end Lexeme

end EcmaScribe
