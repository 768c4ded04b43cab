/-
# EcmaScribe.Text.Identifier -- which texts are names

Two notions of a name.  `isIdentifierPart` is what keeps two words apart: any
character that could go on with the word before it, which takes in every non-ASCII
character and the backslash that opens an escape.  `isIdentifierName` decides
whether a property key is written bare: a letter, `$` or `_`, then letters,
numerals, `$`, `_` and the two joiners.
-/
import EcmaScribe.Text.Letter

namespace EcmaScribe

set_option autoImplicit false

namespace Text

def isAscii (c : Char) : Bool := decide (c.toNat < 128)

def isIdentifierPart (c : Char) : Bool :=
  c.isAlphanum || c = '$' || c = '_' || c = '\\' || !isAscii c

def startsIdentifier (c : Char) : Bool := c = '$' || c = '_' || isAlphabetic c

def continuesIdentifier (c : Char) : Bool :=
  c = '$' || c = '_' || c = '\u200c' || c = '\u200d' || isAlphabetic c || isNumeric c

def isIdentifierName : List Char → Bool
  | [] => false
  | first :: rest => startsIdentifier first && rest.all continuesIdentifier

end Text

end EcmaScribe
