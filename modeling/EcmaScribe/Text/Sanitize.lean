/-
# EcmaScribe.Text.Sanitize -- literal text made safe inside a script element

Three passes turn the text of a literal into ASCII without NUL that opens no script
tag.  Each escape that a pass writes denotes the character it replaces, inside
strings, regular expressions and templates alike.

1. `nul`: NUL becomes an escape.
2. `nonAscii`: every UTF-16 unit of a non-ASCII character becomes an escape.
3. `scriptTag`: the `s` of a terminated tag opener becomes an escape.

A backslash before the replaced character was an escape of its own; it is folded into
the new one, which brings a backslash along.  Before U+2028 and U+2029 a backslash
continues the line, and so it does before the line feed that takes their place.

Names are sanitized by `sanitizeName`: an escape inside a name must denote a whole code
point, so characters beyond U+FFFF are escaped in braces first.
-/
import EcmaScribe.Text.Hexadecimal
import EcmaScribe.Text.Identifier
import EcmaScribe.Text.ScriptTag

namespace EcmaScribe

set_option autoImplicit false

namespace Text

/-! ## Patterns -/

/-- A run of backslashes and a character of the given class after it. -/
def afterBackslashes (isMember : Char → Bool) : Pattern := fun cs =>
  match cs.dropWhile (· = '\\') with
  | c :: _ =>
      let run := cs.takeWhile (· = '\\')
      if isMember c then some ⟨run ++ [c], [run, [c]]⟩ else none
  | [] => none

def isNul (c : Char) : Bool := c = '\x00'

def isAstral (c : Char) : Bool := decide (0x10000 ≤ c.toNat)

def singleChar (isMember : Char → Bool) : Pattern := fun cs =>
  match cs with
  | c :: _ => if isMember c then some ⟨[c], []⟩ else none
  | [] => none

/-! ## Replacements -/

/-- The UTF-16 units of a character. -/
def utf16Units (c : Char) : List Nat :=
  if c.toNat < 0x10000 then [c.toNat]
  else [0xD800 + (c.toNat - 0x10000) / 0x400, 0xDC00 + (c.toNat - 0x10000) % 0x400]

/-- The run without the backslash that escaped the character after it. -/
def keptBackslashes (run : List Char) : List Char :=
  if run.length % 2 = 1 then run.dropLast else run

def escapeNul (m : Match) : List Char := keptBackslashes (m.group 1) ++ ['\\', 'x', '0', '0']

def escapeUnits (c : Char) : List Char :=
  (utf16Units c).flatMap fun unit => '\\' :: 'u' :: hexFixed .upper 4 unit

def isLineSeparator (c : Char) : Bool := c = '\u2028' || c = '\u2029'

def escapeNonAscii (m : Match) : List Char :=
  if (m.group 1).length % 2 = 1 ∧ (m.group 2).all isLineSeparator then m.group 1 ++ ['\n']
  else keptBackslashes (m.group 1) ++ (m.group 2).flatMap escapeUnits

def defeatScriptTag (m : Match) : List Char :=
  '<' :: m.group 1 ++
    (if m.group 2 = ['S'] then ['\\', 'x', '5', '3'] else ['\\', 'x', '7', '3']) ++ m.group 3

def escapeCodePoint (m : Match) : List Char :=
  m.whole.flatMap fun c => ['\\', 'u', '\x7b'] ++ hexShort .upper c.toNat ++ ['\x7d']

/-! ## Passes -/

structure Pass where
  name : String
  pattern : Pattern
  replacement : Match → List Char

def Pass.apply (pass : Pass) (text : List Char) : List Char :=
  replaceAll pass.pattern pass.replacement text

def nulPass : Pass := ⟨"nul", afterBackslashes isNul, escapeNul⟩

def nonAsciiPass : Pass := ⟨"non-ascii", afterBackslashes (fun c => !isAscii c), escapeNonAscii⟩

def scriptTagPass : Pass := ⟨"script-tag", scriptTag, defeatScriptTag⟩

/-- The passes in the order in which they are applied. -/
def passes : List Pass := [nulPass, nonAsciiPass, scriptTagPass]

def sanitize (text : List Char) : List Char := passes.foldl (fun text pass => pass.apply text) text

def sanitizeName (name : List Char) : List Char :=
  sanitize (replaceAll (singleChar isAstral) escapeCodePoint name)

/-- ASCII without NUL in which no script tag is opened. -/
def isWebSafe (text : List Char) : Bool :=
  text.all isAscii && !text.contains '\x00' && !occurs scriptTag text

end Text

end EcmaScribe
