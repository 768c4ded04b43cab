/-
# EcmaScribe.Layout.Options -- how a script is laid out

The three modes of output, and the two settings that concern readable output alone:
the width of an indentation and the line terminator.
-/

namespace EcmaScribe

set_option autoImplicit false

inductive RenderMode
  /-- For people: spaces, line breaks and indentation. -/
  | pretty
  /-- As little blank space as the tokens allow. -/
  | compact
  /-- Compact, in ASCII, and safe inside an HTML script element. -/
  | webSafe
  deriving DecidableEq, Repr

namespace RenderMode

def text : RenderMode → String
  | pretty => "pretty"
  | compact => "compact"
  | webSafe => "web-safe"

def all : List RenderMode := [pretty, compact, webSafe]

theorem mem_all (mode : RenderMode) : mode ∈ all := by cases mode <;> decide

end RenderMode

inductive NewLine
  | lineFeed
  | carriageReturnLineFeed
  deriving DecidableEq, Repr

namespace NewLine

def text : NewLine → String
  | lineFeed => "LineFeed"
  | carriageReturnLineFeed => "CarriageReturnLineFeed"

def all : List NewLine := [lineFeed, carriageReturnLineFeed]

/-- The characters that end a line. -/
def terminator : NewLine → List Char
  | lineFeed => ['\n']
  | carriageReturnLineFeed => ['\x0d', '\n']

theorem mem_all (newLine : NewLine) : newLine ∈ all := by cases newLine <;> decide

end NewLine

structure PrintOptions where
  mode : RenderMode
  /-- Spaces of one level of indentation. -/
  indentWidth : Nat
  newLine : NewLine
  deriving DecidableEq, Repr

namespace PrintOptions

def pretty : PrintOptions := ⟨.pretty, 2, .lineFeed⟩

def compact : PrintOptions := { pretty with mode := .compact }

def webSafe : PrintOptions := { pretty with mode := .webSafe }

end PrintOptions

end EcmaScribe
