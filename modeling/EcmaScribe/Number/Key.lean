/-
# EcmaScribe.Number.Key -- property keys that are numbers

A property key is written as a number when it is the literal of one: the text read as a
decimal gives a number whose readable literal is the text again.  So `1e3` is no such
key, for the number is written `1000`.
-/
import EcmaScribe.Number.Numeral

namespace EcmaScribe

set_option autoImplicit false

namespace Double

def digitsValue (digits : List Char) : Nat :=
  digits.foldl (fun n c => 10 * n + (c.toNat - 48)) 0

/-- The digits after a point, if a point is next, and the text after them. -/
def splitFraction : List Char → List Char × List Char
  | '.' :: rest => (rest.takeWhile Char.isDigit, rest.dropWhile Char.isDigit)
  | cs => ([], cs)

/-- The exponent at the end of a decimal. -/
def exponentOf? : List Char → Option Int
  | [] => some 0
  | 'e' :: '+' :: digits => if digits.all Char.isDigit then some (digitsValue digits) else none
  | 'e' :: '-' :: digits => if digits.all Char.isDigit then some (-digitsValue digits) else none
  | _ => none

/-- The number that a text without a sign denotes. -/
def ofText? (cs : List Char) : Option Double :=
  let whole := cs.takeWhile Char.isDigit
  let (fraction, rest) := splitFraction (cs.dropWhile Char.isDigit)
  (exponentOf? rest).map fun exponent =>
    ofDecimal (digitsValue (whole ++ fraction)) (exponent - fraction.length)

/-- The number that a property key is the literal of. -/
def ofKey? (key : List Char) : Option Double :=
  match ofText? key with
  | some value => if value.isFinite && value.literal false = key then some value else none
  | none => none

end Double

end EcmaScribe
