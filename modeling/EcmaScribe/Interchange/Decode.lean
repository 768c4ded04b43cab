/-
# EcmaScribe.Interchange.Decode -- from values to nodes

Decoding follows the schema and reports the first fault in the order of the text.

* A record is read from a map in the order of its members, each of which fills the slot
  of its field (`Slots.fill`); unknown members are ignored, and what is still missing at
  the end is checked in the order of the fields (`Slots.close`).  It is also read from a
  sequence of its fields (`Record.ofItems`).
* A tagged kind is chosen by the member `type` (`chooseVariant`) before any field is
  read, wherever that member stands; in a sequence the tag comes first.
* A union takes the first set of kinds that fits, and has one fault for all failures.

Every value is turned into a `Candidate` once, by recursion on the value: a function
that decodes it as a node of any category.
-/
import EcmaScribe.Interchange.Schema
import EcmaScribe.Interchange.Word

namespace EcmaScribe

set_option autoImplicit false

/-- A value, and what it is as a node of each category. -/
structure Candidate where
  json : Json
  node : (c : Category) → Except DataFault (Node c)

/-- A value taken apart. -/
inductive Parts
  | scalar (found : Found)
  | sequence (items : List Candidate)
  | map (members : List (String × Candidate))

/-! ## Fields -/

namespace Json

def asText : Json → Except DataFault String
  | string value => .ok value
  | json => .error (.wrongKind json.found .text)

def asOptionalText : Json → Except DataFault (Option String)
  | null => .ok none
  | json => json.asText.map some

def asFlag : Json → Except DataFault Bool
  | bool value => .ok value
  | json => .error (.wrongKind json.found .flag)

def asNumber : Json → Except DataFault Double
  | number value => .ok value.toDouble
  | json => .error (.wrongKind json.found .number)

end Json

def FieldSort.decode : (sort : FieldSort) → Candidate → Except DataFault sort.Value
  | text, value => value.json.asText
  | optionalText, value => value.json.asOptionalText
  | flag, value | optionalFlag, value => value.json.asFlag
  | number, value => value.json.asNumber
  | binaryOperator, value => Vocabulary.ofJson value.json
  | unaryOperator, value => Vocabulary.ofJson value.json
  | updateOperator, value => Vocabulary.ofJson value.json
  | compoundOperator, value => Vocabulary.ofJson value.json
  | declarationKind, value => Vocabulary.ofJson value.json
  | node c, value => value.node c

/-! ## Records from maps -/

/-- The fields of a record as far as they have been met. -/
@[reducible]
def Slots : List Field → Type
  | [] => Unit
  | field :: fields => Option field.sort.Value × Slots fields

namespace Slots

def empty : (fields : List Field) → Slots fields
  | [] => ()
  | _ :: fields => (none, empty fields)

/-- Read a member into the slot of its field; a member of no field is ignored. -/
def fill (key : String) (value : Candidate) :
    (fields : List Field) → Slots fields → Except DataFault (Slots fields)
  | [], () => .ok ()
  | field :: fields, (slot, slots) =>
      if key = field.name then
        match slot with
        | some _ => .error (.duplicateField key)
        | none => (field.sort.decode value).map fun content => (some content, slots)
      else (fill key value fields slots).map fun slots => (slot, slots)

def fillAll (fields : List Field) :
    List (String × Candidate) → Slots fields → Except DataFault (Slots fields)
  | [], slots => .ok slots
  | (key, value) :: members, slots => do fillAll fields members (← fill key value fields slots)

/-- The record of the filled slots, with what missing fields stand for. -/
def close : (fields : List Field) → Slots fields → Except DataFault (Record fields)
  | [], () => .ok ()
  | field :: fields, (slot, slots) =>
      match slot <|> field.sort.absent? with
      | some content => (close fields slots).map fun record => (content, record)
      | none => .error (.missingField field.name)

end Slots

def Record.ofMembers (fields : List Field) (members : List (String × Candidate)) :
    Except DataFault (Record fields) := do
  Slots.close fields (← Slots.fillAll fields members (Slots.empty fields))

/-! ## Records from sequences -/

/-- A flag alone may be left out of a sequence, and only when the sequence ends before it. -/
def FieldSort.omitted? : (sort : FieldSort) → Option sort.Value
  | optionalFlag => some false
  | _ => none

/-- The values of the fields from position `index` on. -/
def Record.ofItems (name : String) (size : Nat) :
    (fields : List Field) → Nat → List Candidate → Except DataFault (Record fields)
  | [], _, [] => .ok ()
  | [], index, item :: items => .error (.longRecord (index + (item :: items).length) size)
  | field :: fields, index, item :: items => do
      let content ← field.sort.decode item
      let record ← ofItems name size fields (index + 1) items
      .ok (content, record)
  | field :: fields, index, [] =>
      match field.sort.omitted? with
      | some content =>
          (ofItems name size fields (index + 1) []).map fun record => (content, record)
      | none => .error (.shortRecord index name size)

/-! ## Kinds and forms -/

variable {c : Category}

def Variant.decode (variant : Variant c) : Parts → Except DataFault (Node c)
  | .map members => (Record.ofMembers variant.fields members).map variant.build
  | .sequence items =>
      (Record.ofItems variant.name variant.fields.length variant.fields 0 items).map variant.build
  | .scalar found => .error (.wrongKind found (.record variant.name))

/-- The key of the member that names the kind of a node. -/
def tagKey : String := "type"

/-- The kind that a tag names; inside a tree it may also be given by its position. -/
def variantOfTag (byIndex : Bool) (variants : List (Variant c)) :
    Json → Except DataFault (Variant c)
  | .string name =>
      match variants.find? fun variant => variant.name = name with
      | some variant => .ok variant
      | none => .error (.unknownWord name (variants.map Variant.name))
  | .number (.integer (.ofNat index)) =>
      if byIndex then
        match variants[index]? with
        | some variant => .ok variant
        | none => .error (.unknownIndex index variants.length)
      else .error (.wrongKind (.number (.integer index)) .word)
  | json => .error (.wrongKind json.found .word)

/-- The kind that the members of a map name, given what those before them named. -/
def chooseVariant (byIndex : Bool) (variants : List (Variant c)) :
    Option (Variant c) → List (String × Json) → Except DataFault (Option (Variant c))
  | chosen, [] => .ok chosen
  | chosen, (key, value) :: members =>
      if key = tagKey then
        match chosen with
        | some _ => .error (.duplicateField tagKey)
        | none => do
            let variant ← variantOfTag byIndex variants value
            chooseVariant byIndex variants (some variant) members
      else chooseVariant byIndex variants chosen members

def decodeTagged (byIndex : Bool) (name : String) (variants : List (Variant c)) :
    Parts → Except DataFault (Node c)
  | .map members => do
      let jsons := members.map fun (key, value) => (key, value.json)
      match ← chooseVariant byIndex variants none jsons with
      | some variant => variant.decode (.map members)
      | none => .error (.missingField tagKey)
  | .sequence [] => .error (.missingField tagKey)
  | .sequence (tag :: items) => do
      let variant ← variantOfTag byIndex variants tag.json
      variant.decode (.sequence items)
  | .scalar found => .error (.wrongKind found (.tagged name))

def decodeUnion (name : String) : List (List (Variant c)) → Parts → Except DataFault (Node c)
  | [], _ => .error (.noAlternative name)
  | variants :: layers, parts =>
      match decodeTagged true name variants parts with
      | .ok node => .ok node
      | .error _ => decodeUnion name layers parts

def decodeEach (c : Category) : List Candidate → Except DataFault (Node (.list c))
  | [] => .ok .nil
  | item :: items => do
      let head ← item.node c
      let tail ← decodeEach c items
      .ok (.cons head tail)

def Form.decode (byIndex : Bool) :
    {c : Category} → Form c → Parts → Except DataFault (Node c)
  | _, record variant, parts => variant.decode parts
  | _, tagged name variants, parts => decodeTagged byIndex name variants parts
  | _, union name layers, parts => decodeUnion name layers parts
  | _, each c, .sequence items => decodeEach c items
  | _, each _, .map _ => .error (.wrongKind .map .sequence)
  | _, each _, .scalar found => .error (.wrongKind found .sequence)
  | _, optional _, .scalar .null => .ok .none
  | _, optional form, parts => (form.decode byIndex parts).map .some

/-! ## Values -/

namespace Json

mutual

/-- A value as a part of a tree. -/
def candidate : Json → Candidate
  | null => ⟨null, fun c => (Form.of c).decode true (.scalar .null)⟩
  | bool value => ⟨bool value, fun c => (Form.of c).decode true (.scalar (.bool value))⟩
  | number value => ⟨number value, fun c => (Form.of c).decode true (.scalar (.number value))⟩
  | string value => ⟨string value, fun c => (Form.of c).decode true (.scalar (.string value))⟩
  | array items =>
      let parts := candidates items
      ⟨array items, fun c => (Form.of c).decode true (.sequence parts)⟩
  | object members =>
      let parts := memberCandidates members
      ⟨object members, fun c => (Form.of c).decode true (.map parts)⟩

def candidates : List Json → List Candidate
  | [] => []
  | item :: items => item.candidate :: candidates items

def memberCandidates : List (String × Json) → List (String × Candidate)
  | [] => []
  | (key, value) :: members => (key, value.candidate) :: memberCandidates members

end

def parts : Json → Parts
  | array items => .sequence (candidates items)
  | object members => .map (memberCandidates members)
  | json => .scalar json.found

/-- A value as a whole tree; its own tag must be a name. -/
def toNode (c : Category) (json : Json) : Except DataFault (Node c) :=
  (Form.of c).decode false json.parts

end Json

end EcmaScribe
