/-
# EcmaScribe.Interchange.Settings -- layout options as values

Options are written as a map of three settings, or as a sequence of them that may end
early.  Every setting may be left out, and stands for its default then.
-/
import EcmaScribe.Interchange.Word

namespace EcmaScribe

set_option autoImplicit false

namespace PrintOptions

/-- The settings that have been met. -/
structure Given where
  mode : Option RenderMode
  indentWidth : Option Nat
  newLine : Option NewLine

namespace Given

def empty : Given := ⟨none, none, none⟩

def complete (given : Given) : PrintOptions where
  mode := given.mode.getD pretty.mode
  indentWidth := given.indentWidth.getD pretty.indentWidth
  newLine := given.newLine.getD pretty.newLine

end Given

/-- A count that fits 64 bits. -/
def sizeOfJson : Json → Except DataFault Nat
  | .number (.integer value) =>
      if 0 ≤ value then .ok value.toNat else .error (.negativeSize value)
  | json => .error (.wrongKind json.found .size)

/-- A setting may be met once. -/
def once {α : Type} (name : String) (slot : Option α) (value : Except Fault α) :
    Except Fault (Option α) :=
  match slot with
  | some _ => .error (.data (.duplicateField name))
  | none => value.map some

/-- Take in one member of a map; of a member without a name only the nesting counts. -/
def Given.add (given : Given) (key : String) (value : Json) : Except Fault Given :=
  if key = "mode" then
    (once key given.mode (Vocabulary.ofRoot value)).map fun mode => { given with mode }
  else if key = "indentWidth" then
    (once key given.indentWidth ((sizeOfJson value).mapError .data)).map
      fun indentWidth => { given with indentWidth }
  else if key = "newLine" then
    (once key given.newLine (Vocabulary.ofRoot value)).map fun newLine => { given with newLine }
  else if Json.nestingLimit ≤ value.depth then .error (.text .malformed)
  else .ok given

def ofMembers : List (String × Json) → Given → Except Fault PrintOptions
  | [], given => .ok given.complete
  | (key, value) :: members, given => do ofMembers members (← given.add key value)

def ofItems : List Json → Except Fault PrintOptions
  | [] => .ok pretty
  | [mode] => do
      let mode ← Vocabulary.ofRoot mode
      .ok { pretty with mode }
  | [mode, indentWidth] => do
      let mode ← Vocabulary.ofRoot mode
      let indentWidth ← (sizeOfJson indentWidth).mapError .data
      .ok { pretty with mode, indentWidth }
  | mode :: indentWidth :: newLine :: rest => do
      let mode ← Vocabulary.ofRoot mode
      let indentWidth ← (sizeOfJson indentWidth).mapError .data
      let newLine ← Vocabulary.ofRoot newLine
      if rest.isEmpty then .ok ⟨mode, indentWidth, newLine⟩ else .error (.text .malformed)

def ofJson : Json → Except Fault PrintOptions
  | .object members => ofMembers members .empty
  | .array items => ofItems items
  | json => .error (.data (.wrongKind json.found (.record "PrintOptions")))

def toJson (options : PrintOptions) : Json :=
  .object [("mode", .string options.mode.text),
    ("indentWidth", .number (.integer options.indentWidth)),
    ("newLine", .string options.newLine.text)]

end PrintOptions

end EcmaScribe
