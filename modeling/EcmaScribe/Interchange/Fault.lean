/-
# EcmaScribe.Interchange.Fault -- why a value is not a tree

A value that is well-formed JSON can still fail to be a tree.  `DataFault` names the
cause, and `message` words it; `Fault` adds the case of a text that is no value at all.
-/
import EcmaScribe.Json.Reader
import EcmaScribe.Text.Printable

namespace EcmaScribe

set_option autoImplicit false

/-! ## What was found and what was wanted -/

/-- The kind of a value, with its content where that is a single token. -/
inductive Found
  | null
  | bool (value : Bool)
  | number (value : JsonNumber)
  | string (value : String)
  | sequence
  | map
  deriving DecidableEq, Repr

namespace Json

def found : Json → Found
  | null => .null
  | bool value => .bool value
  | number value => .number value
  | string value => .string value
  | array _ => .sequence
  | object _ => .map

end Json

namespace Found

def message : Found → String
  | null => "null"
  | bool true => "boolean `true`"
  | bool false => "boolean `false`"
  | number (.integer value) => "integer `" ++ String.ofList (JsonNumber.integer value).text ++ "`"
  | number (.float value) => "floating point `" ++ String.ofList value.interchange ++ "`"
  | string value => "string " ++ String.ofList (Text.shownQuoted value)
  | sequence => "sequence"
  | map => "map"

end Found

/-- What a place accepts. -/
inductive Wanted
  | text
  | flag
  | number
  | size
  | sequence
  | unit
  /-- The name of a member of an enumeration. -/
  | word
  /-- The same, where it may also be the key of a map. -/
  | wordOrMap
  | record (name : String)
  | tagged (name : String)
  deriving DecidableEq, Repr

namespace Wanted

def message : Wanted → String
  | text => "a string"
  | flag => "a boolean"
  | number => "f64"
  | size => "usize"
  | sequence => "a sequence"
  | unit => "unit"
  | word => "variant identifier"
  | wordOrMap => "string or map"
  | record name => "struct " ++ name
  | tagged name => "internally tagged enum " ++ name

end Wanted

/-! ## Faults -/

inductive DataFault
  | missingField (name : String)
  | duplicateField (name : String)
  | unknownWord (word : String) (known : List String)
  | unknownIndex (index count : Nat)
  | wrongKind (found : Found) (wanted : Wanted)
  /-- A map stands for a word and does not have exactly one key. -/
  | notOneKey
  | negativeSize (value : Int)
  /-- A sequence ends before the fields of a record do. -/
  | shortRecord (length : Nat) (name : String) (size : Nat)
  /-- A sequence goes on after the last field of a record. -/
  | longRecord (length size : Nat)
  /-- No form that a union admits fits. -/
  | noAlternative (union : String)
  deriving DecidableEq, Repr

/-- Why a text is not a tree. -/
inductive Fault
  | text (fault : TextFault)
  | data (fault : DataFault)
  deriving DecidableEq, Repr

namespace DataFault

def decimal (n : Nat) : String := String.ofList (Nat.toDigits 10 n)

def named (name : String) : String := "`" ++ name ++ "`"

/-- A count of elements, in the singular for one. -/
def elements (n : Nat) : String := decimal n ++ if n = 1 then " element" else " elements"

/-- The choice that was open: one name, either of two, or one of more. -/
def choice : List String → String
  | [first] => named first
  | [first, second] => named first ++ " or " ++ named second
  | known => "one of " ++ String.intercalate ", " (known.map named)

def message : DataFault → String
  | missingField name => "missing field " ++ named name
  | duplicateField name => "duplicate field " ++ named name
  | unknownWord word known => "unknown variant " ++ named word ++ ", expected " ++ choice known
  | unknownIndex index count =>
      "invalid value: integer " ++ named (decimal index) ++
        ", expected variant index 0 <= i < " ++ decimal count
  | wrongKind found wanted => "invalid type: " ++ found.message ++ ", expected " ++ wanted.message
  | notOneKey => "invalid value: map, expected map with a single key"
  | negativeSize value =>
      "invalid value: " ++ (Found.number (.integer value)).message ++ ", expected usize"
  | shortRecord length name size =>
      "invalid length " ++ decimal length ++ ", expected struct " ++ name ++ " with " ++
        elements size
  | longRecord length size =>
      "invalid length " ++ decimal length ++ ", expected " ++ elements size ++ " in sequence"
  | noAlternative union => "data did not match any variant of untagged enum " ++ union

end DataFault

def Fault.message : Fault → String
  | text .malformed => "the text is not JSON"
  | text .unfinished => "the text ends inside a value"
  | data fault => fault.message

end EcmaScribe
