/-
# EcmaScribe.Interchange.Document -- programs as texts

`Node.ofText?` reads a whole text as one node and `Node.toText` writes it back.

The tag of the outermost value is examined as soon as it is met, so a fault of the tag
is reported even if the text breaks off later inside that value (`brokenTag`); all other
faults of the data wait for the value to be complete.  A value that fails is reported
before anything that follows it.
-/
import EcmaScribe.Interchange.Encode

namespace EcmaScribe

set_option autoImplicit false

open Json (Broken)

variable {c : Category}

/-- What stands in place of a tag when a container opens there. -/
def openerFault (opener : Option Char) : Option DataFault :=
  if opener = some '[' then some (.wrongKind .sequence .word)
  else if opener = some '\x7b' then some (.wrongKind .map .word)
  else none

/-- The fault of the tag that shows before a map breaks off. -/
def brokenMapTag (variants : List (Variant c)) (broken : Broken (String × Json)) :
    Option DataFault :=
  match chooseVariant false variants none broken.complete with
  | .error fault => some fault
  | .ok chosen =>
      if broken.key = some tagKey then
        if chosen.isSome then some (.duplicateField tagKey) else openerFault broken.opener
      else none

/-- The fault of the tag that shows before a sequence breaks off. -/
def brokenSequenceTag (variants : List (Variant c)) (broken : Broken Json) :
    Option DataFault :=
  match broken.complete with
  | [] => openerFault broken.opener
  | tag :: _ =>
      match variantOfTag false variants tag with
      | .error fault => some fault
      | .ok _ => none

namespace Form

/-- The kinds whose tag is examined while the text is read. -/
def rootVariants : Form c → List (Variant c)
  | tagged _ variants => variants
  | _ => []

end Form

/-- The fault of the data, if one shows, else that of the text. -/
def brokenFault (data : Option DataFault) (text : TextFault) : Fault :=
  match data with
  | some fault => .data fault
  | none => .text text

namespace Node

/-- The node that a text holds, for a category whose kinds are tagged. -/
def ofText? (c : Category) (text : List Char) : Except Fault (Node c) :=
  match Json.readDocument text with
  | .value json rest =>
      match json.toNode c with
      | .error fault => .error (.data fault)
      | .ok node => if Json.isTail rest then .ok node else .error (.text .malformed)
  | .brokenArray broken =>
      .error (brokenFault (brokenSequenceTag (Form.of c).rootVariants broken) broken.fault)
  | .brokenObject broken =>
      .error (brokenFault (brokenMapTag (Form.of c).rootVariants broken) broken.fault)
  | .fault fault => .error (.text fault)

/-- The text of a node, which reads back as the node. -/
def toText (node : Node c) : List Char := node.toJson.text

end Node

end EcmaScribe
