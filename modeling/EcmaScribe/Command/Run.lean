/-
# EcmaScribe.Command.Run -- what the command writes

The command writes the text of a program, or the table of its references: one line for
each reference in source order, with the name and the access.
-/
import EcmaScribe.Command.Arguments
import EcmaScribe.Interchange.Document
import EcmaScribe.Render
import EcmaScribe.Tree.Reference

namespace EcmaScribe.Command

set_option autoImplicit false

/-- The output for a program. -/
def Arguments.execute (arguments : Arguments) (program : Program) : List Char :=
  if arguments.references then Reference.table program.references
  else program.print arguments.options

/-- The output for the text of a program. -/
def Arguments.run (arguments : Arguments) (text : List Char) : Except Fault (List Char) :=
  (Node.ofText? .program text).map arguments.execute

end EcmaScribe.Command
