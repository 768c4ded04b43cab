/-
# EcmaScribe.Command.LogFormat -- the formats of the log

The format is chosen by a word whose case does not matter; any other word chooses plain
text.  Only ASCII capitals have small letters that occur in the words.
-/
namespace EcmaScribe.Command

set_option autoImplicit false

inductive LogFormat
  | text
  | tree
  | json
  deriving DecidableEq, Repr

def LogFormat.ofWord (word : String) : LogFormat :=
  let small := word.toList.map Char.toLower
  if small = ['t', 'r', 'e', 'e'] then .tree
  else if small = ['j', 's', 'o', 'n'] then .json
  else .text

end EcmaScribe.Command
