/-
# EcmaScribe.Main -- the command

Reads a program from the file that the command line names, or from standard input, and
writes what `Command.Arguments.run` makes of it.
-/
import EcmaScribe.Command.Run

namespace EcmaScribe.Command

set_option autoImplicit false

def usage : String :=
  "usage: ecmascribe [-m|--mode pretty|compact|web-safe] [--indent N]\n" ++
  "         [--new-line lf|crlf] [--references] [INPUT]\n"

def Rejection.message : Rejection → String
  | .invalidValue => "a value is missing or not among those that a setting admits"
  | .invalidCount => "a count is not a decimal number"
  | .unknownArgument => "unexpected argument"
  | .repeated => "an option is given twice"
  | .unexpectedValue => "an option takes no value"
  | .help | .version => ""

/-- All lines up to the end of the input. -/
partial def readLines (input : IO.FS.Stream) (done : String) : IO String := do
  let line ← input.getLine
  if line.isEmpty then return done else readLines input (done ++ line)

/-- The text that the arguments name. -/
def Arguments.readInput (arguments : Arguments) : IO String :=
  match arguments.input with
  | some path => IO.FS.readFile path
  | none => do readLines (← IO.getStdin) ""

/-- Process the arguments and give the exit code. -/
def process (arguments : List String) : IO UInt32 := do
  match Arguments.ofList? arguments with
  | .error .help =>
      IO.print usage
      return 0
  | .error .version =>
      IO.println "ecmascribe 1"
      return 0
  | .error rejection =>
      IO.eprint ("error: " ++ rejection.message ++ "\n" ++ usage)
      return 2
  | .ok arguments =>
      match arguments.run (← arguments.readInput).toList with
      | .ok output =>
          IO.print (String.ofList output)
          return 0
      | .error fault =>
          IO.eprintln ("error: " ++ fault.message)
          return 1

end EcmaScribe.Command

def main (arguments : List String) : IO UInt32 := EcmaScribe.Command.process arguments
