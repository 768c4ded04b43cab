/-
# EcmaScribe.Json.Value -- interchange values and their text

A JSON value as it stands in a text: members keep their order and their
repetitions, and a number remembers whether it was written as an integer, since
diagnostics name the two kinds apart.

`text` writes a value without blanks.  Strings escape the quote, the backslash
and the controls below U+0020 and nothing else.
-/
import EcmaScribe.Number.Numeral
import EcmaScribe.Text.Hexadecimal

namespace EcmaScribe

set_option autoImplicit false

/-- A number as written: an integer that fits 64 bits, or anything else. -/
inductive JsonNumber
  | integer (value : Int)
  | float (value : Double)
  deriving DecidableEq, Repr

inductive Json
  | null
  | bool (value : Bool)
  | number (value : JsonNumber)
  | string (value : String)
  | array (items : List Json)
  | object (members : List (String × Json))
  deriving Repr

namespace JsonNumber

def toDouble : JsonNumber → Double
  | integer value => if value < 0 then (Double.ofNat value.natAbs).neg else .ofNat value.natAbs
  | float value => value

def text : JsonNumber → List Char
  | integer value => (if value < 0 then ['-'] else []) ++ Nat.toDigits 10 value.natAbs
  | float value => value.interchange

end JsonNumber

namespace Json

/-! ## Writing -/

def escape (c : Char) : List Char :=
  if c = '\x22' then ['\\', '\x22']
  else if c = '\\' then ['\\', '\\']
  else if c = '\x08' then ['\\', 'b']
  else if c = '\x09' then ['\\', 't']
  else if c = '\x0a' then ['\\', 'n']
  else if c = '\x0c' then ['\\', 'f']
  else if c = '\x0d' then ['\\', 'r']
  else if c.toNat < 32 then '\\' :: 'u' :: Text.hexFixed .lower 4 c.toNat
  else [c]

def quote (s : String) : List Char :=
  '\x22' :: s.toList.flatMap escape ++ ['\x22']

mutual

def text : Json → List Char
  | null => ['n', 'u', 'l', 'l']
  | bool true => ['t', 'r', 'u', 'e']
  | bool false => ['f', 'a', 'l', 's', 'e']
  | number value => value.text
  | string value => quote value
  | array items => '[' :: textItems items ++ [']']
  | object members => '\x7b' :: textMembers members ++ ['\x7d']

def textItems : List Json → List Char
  | [] => []
  | [item] => item.text
  | item :: rest => item.text ++ ',' :: textItems rest

def textMembers : List (String × Json) → List Char
  | [] => []
  | [(key, value)] => quote key ++ ':' :: value.text
  | (key, value) :: rest => quote key ++ ':' :: value.text ++ ',' :: textMembers rest

end

/-! ## Nesting -/

mutual

/-- How many containers nest inside one another. -/
def depth : Json → Nat
  | array items => depthItems items + 1
  | object members => depthMembers members + 1
  | _ => 0

def depthItems : List Json → Nat
  | [] => 0
  | item :: rest => max item.depth (depthItems rest)

def depthMembers : List (String × Json) → Nat
  | [] => 0
  | (_, value) :: rest => max value.depth (depthMembers rest)

end

end Json

end EcmaScribe
