/-
# EcmaScribe.Layout.Stream -- writing tokens one after another

A stream holds the text written so far and what is still due: a space, a line break, a
semicolon.  `Stream.step` carries out one instruction and `Stream.run` all of them.

A stream decides everything that is not a token.

* Two tokens are kept apart by a space when side by side they would be read
  differently: two words, `+ +` and `- -`, a slash before what opens a comment or could
  be a flag, an integer before a dot, and the openers of HTML comments.
* Readable output writes the spaces and breaks that the instructions offer; a break
  beats a space.  Nothing is written before the first token.
* Compact output holds a semicolon back until the next token, and drops it before a
  closing brace.
* Safe output is compact; it sanitizes every token that is no number, and keeps two
  tokens apart that would spell a script tag across their seam.
-/
import EcmaScribe.Fragment.Basic
import EcmaScribe.Layout.Options

namespace EcmaScribe

set_option autoImplicit false

/-- What a stream does apart from writing tokens in order. -/
structure Layout where
  compact : Bool
  safe : Bool
  indentWidth : Nat
  newLine : List Char
  deriving DecidableEq, Repr

namespace Layout

/-- The layout of readable and of compact output. -/
def ofOptions (options : PrintOptions) : Layout :=
  ⟨options.mode != .pretty, false, options.indentWidth, options.newLine.terminator⟩

/-- The layout of safe output; the settings for readable output play no part in it. -/
def webSafe : Layout := { ofOptions .compact with safe := true }

end Layout

/-- The text is kept newest character first. -/
structure Stream where
  written : List Char
  level : Nat
  pendingSpace : Bool
  pendingBreak : Bool
  pendingSemicolon : Bool
  lastInteger : Bool
  deriving DecidableEq, Repr

namespace Stream

def start : Stream := ⟨[], 0, false, false, false, false⟩

/-- The text written so far, without what is due. -/
def text (s : Stream) : List Char := s.written.reverse

/-! ## Keeping tokens apart -/

/-- Whether a token right after the written text would be read together with its end. -/
def needsSeparator (s : Stream) (token : List Char) : Bool :=
  match s.written, token with
  | last :: before, next :: _ =>
      (Text.isIdentifierPart last && Text.isIdentifierPart next) ||
      (last = '+' && next = '+') || (last = '-' && next = '-') ||
      (last = '/' && (next = '/' || next = '*' || Text.isIdentifierPart next)) ||
      (next = '.' && s.lastInteger) ||
      (last = '<' && next = '!') ||
      (last = '-' && next = '>' && before.head? = some '-')
  | _, _ => false

/-! ## Writing -/

/-- Append characters as one token. -/
def append (s : Stream) (token : List Char) : Stream :=
  { s with written := token.reverse ++ s.written, lastInteger := token.all Char.isDigit }

/-- The semicolon that is due is written, unless a closing brace comes next. -/
def settleSemicolon (s : Stream) (token : List Char) : Stream :=
  if s.pendingSemicolon then
    let s := { s with pendingSemicolon := false }
    if token = ['\x7d'] then s else s.append [';']
  else s

/-- The blank text in front of a token. -/
def gap (layout : Layout) (s : Stream) (token : List Char) : List Char :=
  if s.pendingBreak && !s.written.isEmpty then
    layout.newLine ++ List.replicate (s.level * layout.indentWidth) ' '
  else if (s.pendingSpace && !s.written.isEmpty) || s.needsSeparator token ||
      (layout.safe && Text.formsOpenerAfter s.written token) then [' ']
  else []

/-- Write a token as it is; the empty token is no token. -/
def writeToken (layout : Layout) (s : Stream) (token : List Char) : Stream :=
  if token.isEmpty then s
  else
    let s := s.settleSemicolon token
    let gap := s.gap layout token
    { s with
      written := gap.reverse ++ s.written, pendingBreak := false, pendingSpace := false }.append
        token

def put (layout : Layout) (s : Stream) : Token → Stream
  | .text chars => s.writeToken layout (if layout.safe then Text.sanitize chars else chars)
  | .number value =>
      s.writeToken { layout with safe := false } (value.literal layout.compact)

def putOptionalSemicolon (layout : Layout) (s : Stream) : Stream :=
  if layout.compact then
    { (if s.pendingSemicolon then s.append [';'] else s) with pendingSemicolon := true }
  else s.put layout (.text [';'])

def step (layout : Layout) (s : Stream) : Step Token → Stream
  | .put token => s.put layout token
  | .optionalSemicolon => s.putOptionalSemicolon layout
  | .space => if layout.compact then s else { s with pendingSpace := true }
  | .lineBreak => if layout.compact then s else { s with pendingBreak := true }
  | .indent => { s with level := s.level + 1 }
  | .dedent => { s with level := s.level - 1 }

/-- The text of a finished stream: a due semicolon is written, and a readable text that is
not empty ends its last line. -/
def finish (layout : Layout) (s : Stream) : List Char :=
  let s := if s.pendingSemicolon then s.append [';'] else s
  if !layout.compact && !s.written.isEmpty then s.text ++ layout.newLine else s.text

def runFrom (layout : Layout) (s : Stream) (steps : List (Step Token)) : Stream :=
  steps.foldl (step layout) s

/-- The text that a list of instructions writes. -/
def run (layout : Layout) (steps : List (Step Token)) : List Char :=
  (start.runFrom layout steps).finish layout

end Stream

end EcmaScribe
