/-
# EcmaScribe.Interchange.Word -- enumerations as words

Operators, declaration kinds and the settings of the layout are written as words.  A
word may also stand as the only key of a map that carries no content.

Inside a tree the value is at hand whole (`ofJson`).  At the outermost level of a text
it is read token by token (`ofRoot`), so what cannot begin a word is a fault of the
text and not of the data.
-/
import EcmaScribe.Interchange.Fault
import EcmaScribe.Tree.Operator
import EcmaScribe.Layout.Options

namespace EcmaScribe

set_option autoImplicit false

/-- An enumeration whose members are known by their words. -/
class Vocabulary (α : Type) where
  members : List α
  word : α → String

namespace Vocabulary

instance : Vocabulary BinaryOperator := ⟨BinaryOperator.all, BinaryOperator.text⟩
instance : Vocabulary UnaryOperator := ⟨UnaryOperator.all, UnaryOperator.text⟩
instance : Vocabulary UpdateOperator := ⟨UpdateOperator.all, UpdateOperator.text⟩
instance : Vocabulary CompoundOperator := ⟨CompoundOperator.all, CompoundOperator.text⟩
instance : Vocabulary DeclarationKind := ⟨DeclarationKind.all, DeclarationKind.text⟩
instance : Vocabulary RenderMode := ⟨RenderMode.all, RenderMode.text⟩
instance : Vocabulary NewLine := ⟨NewLine.all, NewLine.text⟩

variable {α : Type} [Vocabulary α]

/-- The member with a given word. -/
def ofWord (text : String) : Except DataFault α :=
  match (members : List α).find? fun member => word member = text with
  | some member => .ok member
  | none => .error (.unknownWord text ((members : List α).map word))

/-- What a word carries: nothing, or a map without members. -/
def isEmptyContent : Json → Bool
  | .null | .object [] => true
  | _ => false

def ofJson : Json → Except DataFault α
  | .string text => ofWord text
  | .object [(text, content)] => do
      let member ← ofWord text
      if isEmptyContent content then .ok member
      else .error (.wrongKind content.found .unit)
  | .object _ => .error .notOneKey
  | json => .error (.wrongKind json.found .wordOrMap)

def ofRoot : Json → Except Fault α
  | .string text => (ofWord text).mapError .data
  | .object ((text, content) :: rest) => do
      let member ← (ofWord text).mapError .data
      match content with
      | .null => if rest.isEmpty then .ok member else .error (.text .malformed)
      | _ => .error (.data (.wrongKind content.found .unit))
  | _ => .error (.text .malformed)

end Vocabulary

end EcmaScribe
