/-
# EcmaScribe.Render -- the script of a program

A program is turned into a fragment, the fragment into instructions, the lexemes of the
instructions are spelled, and a stream writes them.  The three modes differ in spelling
and layout: safe output pairs the spelling that sanitizes the source's own text with the
layout that sanitizes every token.
-/
import EcmaScribe.Fragment.OfTree
import EcmaScribe.Layout.Stream

namespace EcmaScribe

set_option autoImplicit false

namespace Fragment

/-- The instructions that write a fragment, its lexemes spelled. -/
def tokens (spelling : Spelling) (noIn : Bool) (f : Fragment) : List (Step Token) :=
  (f.steps noIn).map (Step.map (Lexeme.spell spelling))

/-- The text of a fragment. -/
def text (spelling : Spelling) (layout : Layout) (noIn : Bool) (f : Fragment) : List Char :=
  Stream.run layout (f.tokens spelling noIn)

end Fragment

namespace Node

/-- The script of a program in a given spelling and layout. -/
def render (spelling : Spelling) (layout : Layout) (program : Program) : List Char :=
  program.fragment.text spelling layout false

/-- The script of a program as the options ask for it. -/
def print (program : Program) (options : PrintOptions) : List Char :=
  match options.mode with
  | .pretty | .compact => program.render .plain (.ofOptions options)
  | .webSafe => program.render .webSafe .webSafe

def pretty (program : Program) : List Char := program.print .pretty

def compact (program : Program) : List Char := program.print .compact

def webSafe (program : Program) : List Char := program.print .webSafe

end Node

end EcmaScribe
