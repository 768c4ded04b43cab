/-
# EcmaScribe.Json.Reader -- reading interchange text

`Json.read` reads one value from the front of a text.  A text fails in one of
two ways: it is malformed, or it ends inside a value.  Containers nest at most
`nestingLimit` deep.

A number is read with at most 64 bits of its digits and one rounded
multiplication or division by a power of ten (`JsonNumber.ofParts`), so a decimal
with more than fifteen digits may land next to the nearest double.

When the text breaks inside the outermost container, `Broken` keeps what came
before the break, so that a fault of the data there can still be reported first.
Every loop is bounded by the length of the text.
-/
import EcmaScribe.Json.Value

namespace EcmaScribe

set_option autoImplicit false

/-- Why a text is not a value. -/
inductive TextFault
  | malformed
  | unfinished
  deriving DecidableEq, Repr

namespace Json

/-- What was read and the text after it. -/
abbrev Reading (α : Type) := Except TextFault (α × List Char)

def isBlank (c : Char) : Bool := c = ' ' || c = '\n' || c = '\t' || c = '\x0d'

def skipBlank (cs : List Char) : List Char := cs.dropWhile isBlank

/-- The rest of a word whose first letter has been read. -/
def readWord (value : Json) : List Char → List Char → Reading Json
  | [], cs => .ok (value, cs)
  | _ :: _, [] => .error .unfinished
  | expected :: word, c :: cs =>
      if c = expected then readWord value word cs else .error .malformed

/-! ## Strings -/

def simpleEscape? (c : Char) : Option Char :=
  if c = '\x22' ∨ c = '\\' ∨ c = '/' then some c
  else if c = 'b' then some '\x08'
  else if c = 'f' then some '\x0c'
  else if c = 'n' then some '\n'
  else if c = 'r' then some '\x0d'
  else if c = 't' then some '\t'
  else none

/-- Where a string stands: between characters, inside an escape, or between the
two halves of a surrogate pair, the first of which is already known. -/
inductive StringState
  | plain
  | escape
  | hex (high : Option Nat) (missing value : Nat)
  | awaitBackslash (high : Nat)
  | awaitU (high : Nat)

/-- A hexadecimal escape needs four more bytes of text. -/
def hasFourBytes (cs : List Char) : Bool :=
  decide (4 ≤ (String.ofList (cs.take 4)).utf8ByteSize)

def isHighSurrogate (unit : Nat) : Bool := decide (0xD800 ≤ unit ∧ unit ≤ 0xDBFF)

def isLowSurrogate (unit : Nat) : Bool := decide (0xDC00 ≤ unit ∧ unit ≤ 0xDFFF)

/-- The character of a complete four-digit escape, or the state that waits for
its second half. -/
def closeHex (high : Option Nat) (unit : Nat) : Except TextFault (Char ⊕ StringState) :=
  match high with
  | none =>
      if isLowSurrogate unit then .error .malformed
      else if isHighSurrogate unit then .ok (.inr (.awaitBackslash unit))
      else .ok (.inl (Char.ofNat unit))
  | some first =>
      if isLowSurrogate unit then
        .ok (.inl (Char.ofNat (0x10000 + (first - 0xD800) * 0x400 + (unit - 0xDC00))))
      else .error .malformed

/-- The rest of a string after its opening quote; `done` is what has been read,
newest first. -/
def readString : StringState → List Char → List Char → Reading String
  | _, _, [] => .error .unfinished
  | .plain, done, c :: cs =>
      if c = '\x22' then .ok (String.ofList done.reverse, cs)
      else if c = '\\' then readString .escape done cs
      else if c.toNat < 32 then .error .malformed
      else readString .plain (c :: done) cs
  | .escape, done, c :: cs =>
      if c = 'u' then
        if hasFourBytes cs then readString (.hex none 4 0) done cs else .error .unfinished
      else match simpleEscape? c with
        | some plain => readString .plain (plain :: done) cs
        | none => .error .malformed
  | .hex high missing value, done, c :: cs =>
      match Text.hexValue? c with
      | none => .error .malformed
      | some digit =>
          if missing ≤ 1 then
            match closeHex high (16 * value + digit) with
            | .error fault => .error fault
            | .ok (.inl char) => readString .plain (char :: done) cs
            | .ok (.inr state) => readString state done cs
          else readString (.hex high (missing - 1) (16 * value + digit)) done cs
  | .awaitBackslash high, done, c :: cs =>
      if c = '\\' then readString (.awaitU high) done cs else .error .malformed
  | .awaitU high, done, c :: cs =>
      if c = 'u' then
        if hasFourBytes cs then readString (.hex (some high) 4 0) done cs else .error .unfinished
      else .error .malformed

/-! ## Numbers -/

def isDigit (c : Char) : Bool := decide ('0' ≤ c ∧ c ≤ '9')

/-- Take digits into the significand while it fits 64 bits. -/
def absorb : Nat → List Char → Nat × List Char
  | significand, [] => (significand, [])
  | significand, c :: cs =>
      let next := 10 * significand + (c.toNat - 48)
      if next < UInt64.size then absorb next cs else (significand, c :: cs)

end Json

namespace JsonNumber

/-- `significand * 10 ^ power`, rounded once for the significand, once for the
power of ten and once for their product or quotient; nothing when too large.

Beyond the largest power of ten that is a double a quotient is taken in two
steps, and after two steps of `10 ^ 308` a 64-bit significand has vanished. -/
def ofParts? (negative : Bool) (significand : Nat) (power : Int) : Option Double :=
  let start := Double.ofNat significand
  let signed (d : Double) : Double := if negative then d.neg else d
  if significand = 0 then some (Double.zero negative)
  else if 308 < power then none
  else if 0 ≤ power then
    let product := start.mul (.tenTo power.toNat)
    if product.isInfinite then none else some (signed product)
  else if -308 ≤ power then some (signed (start.div (.tenTo (-power).toNat)))
  else if -616 ≤ power then
    some (signed ((start.div (.tenTo 308)).div (.tenTo (-power - 308).toNat)))
  else some (Double.zero negative)

end JsonNumber

namespace Json

/-- The digits after a mark; there must be at least one. -/
def readDigits (cs : List Char) : Reading (List Char) :=
  match cs with
  | [] => .error .unfinished
  | c :: _ =>
      if isDigit c then .ok (cs.takeWhile isDigit, cs.dropWhile isDigit) else .error .malformed

def digitsValue (digits : List Char) : Nat :=
  digits.foldl (fun n c => 10 * n + (c.toNat - 48)) 0

/-- The digits before a point; a zero stands alone. -/
def readWhole (cs : List Char) : Except TextFault (List Char × List Char) := do
  let (whole, rest) ← readDigits cs
  if whole.head? = some '0' ∧ 1 < whole.length then .error .malformed else .ok (whole, rest)

def readFraction (cs : List Char) : Reading (Option (List Char)) :=
  match cs with
  | '.' :: rest => (readDigits rest).map fun (digits, rest) => (some digits, rest)
  | _ => .ok (none, cs)

def readExponent (cs : List Char) : Reading (Option Int) :=
  match cs with
  | [] => .ok (none, cs)
  | e :: rest =>
      if e = 'e' ∨ e = 'E' then
        let (negative, rest) := match rest with
          | '+' :: rest => (false, rest)
          | '-' :: rest => (true, rest)
          | _ => (false, rest)
        (readDigits rest).map fun (digits, rest) =>
          let size := digitsValue digits
          (some (if negative then -(size : Int) else size), rest)
      else .ok (none, cs)

/-- The number with the given parts.  An integer outside 64 bits, and minus zero,
is kept as a double. -/
def assembleNumber (negative : Bool) (whole : List Char) (fraction : Option (List Char))
    (exponent : Option Int) : Except TextFault JsonNumber :=
  let (head, spilled) := absorb 0 whole
  if fraction.isNone ∧ exponent.isNone ∧ spilled.isEmpty then
    if !negative then .ok (.integer head)
    else if head = 0 ∨ UInt64.size / 2 < head then .ok (.float (Double.ofNat head).neg)
    else .ok (.integer (-(head : Int)))
  else
    let digits := fraction.getD []
    let (significand, dropped) := absorb head digits
    let power := (spilled.length : Int) - (digits.length - dropped.length : Nat)
      + exponent.getD 0
    match JsonNumber.ofParts? negative significand power with
    | some value => .ok (.float value)
    | none => .error .malformed

/-- A number without its sign. -/
def readMagnitude (negative : Bool) (cs : List Char) : Except TextFault (Json × List Char) := do
  let (whole, rest) ← readWhole cs
  let (fraction, rest) ← readFraction rest
  let (exponent, rest) ← readExponent rest
  let value ← assembleNumber negative whole fraction exponent
  .ok (.number value, rest)

/-! ## Containers -/

/-- A container that breaks off: what was complete, and the first opening mark or
key after it. -/
structure Broken (α : Type) where
  fault : TextFault
  complete : List α
  key : Option String
  opener : Option Char

abbrev Listing (α : Type) := Except (Broken α) (List α × List Char)

def openerOf (cs : List Char) : Option Char :=
  match skipBlank cs with
  | c :: _ => if c = '[' ∨ c = '\x7b' then some c else none
  | [] => none

/-- Elements up to the closing bracket, the first of which is due. -/
def readElements (item : List Char → Reading Json) : Nat → List Json → List Char → Listing Json
  | 0, done, _ => .error ⟨.unfinished, done.reverse, none, none⟩
  | fuel + 1, done, cs =>
      match item cs with
      | .error fault => .error ⟨fault, done.reverse, none, openerOf cs⟩
      | .ok (value, rest) =>
          match skipBlank rest with
          | [] => .error ⟨.unfinished, (value :: done).reverse, none, none⟩
          | c :: rest =>
              if c = ']' then .ok ((value :: done).reverse, rest)
              else if c = ',' then readElements item fuel (value :: done) rest
              else .error ⟨.malformed, (value :: done).reverse, none, none⟩

def readArray (item : List Char → Reading Json) (fuel : Nat) (cs : List Char) : Listing Json :=
  match skipBlank cs with
  | ']' :: rest => .ok ([], rest)
  | _ => readElements item fuel [] cs

/-- A quoted key. -/
def readKey (cs : List Char) : Reading String :=
  match skipBlank cs with
  | [] => .error .unfinished
  | c :: rest => if c = '\x22' then readString .plain [] rest else .error .malformed

def readColon (cs : List Char) : Except TextFault (List Char) :=
  match skipBlank cs with
  | [] => .error .unfinished
  | c :: rest => if c = ':' then .ok rest else .error .malformed

/-- Members up to the closing brace, the first of which is due. -/
def readMembers (item : List Char → Reading Json) :
    Nat → List (String × Json) → List Char → Listing (String × Json)
  | 0, done, _ => .error ⟨.unfinished, done.reverse, none, none⟩
  | fuel + 1, done, cs =>
      match readKey cs with
      | .error fault => .error ⟨fault, done.reverse, none, none⟩
      | .ok (key, rest) =>
          match readColon rest with
          | .error fault => .error ⟨fault, done.reverse, some key, none⟩
          | .ok rest =>
              match item rest with
              | .error fault => .error ⟨fault, done.reverse, some key, openerOf rest⟩
              | .ok (value, rest) =>
                  match skipBlank rest with
                  | [] => .error ⟨.unfinished, ((key, value) :: done).reverse, none, none⟩
                  | c :: rest =>
                      if c = '\x7d' then .ok (((key, value) :: done).reverse, rest)
                      else if c = ',' then readMembers item fuel ((key, value) :: done) rest
                      else .error ⟨.malformed, ((key, value) :: done).reverse, none, none⟩

def readObject (item : List Char → Reading Json) (fuel : Nat) (cs : List Char) :
    Listing (String × Json) :=
  match skipBlank cs with
  | '\x7d' :: rest => .ok ([], rest)
  | _ => readMembers item fuel [] cs

/-! ## Values -/

/-- A value that is not a container. -/
def readScalar (cs : List Char) : Reading Json :=
  match cs with
  | [] => .error .unfinished
  | c :: rest =>
      if c = 'n' then readWord .null ['u', 'l', 'l'] rest
      else if c = 't' then readWord (.bool true) ['r', 'u', 'e'] rest
      else if c = 'f' then readWord (.bool false) ['a', 'l', 's', 'e'] rest
      else if c = '\x22' then
        (readString .plain [] rest).map fun (value, rest) => (.string value, rest)
      else if c = '-' then readMagnitude true rest
      else if isDigit c then readMagnitude false cs
      else .error .malformed

/-- Containers nest at most this deep. -/
def nestingLimit : Nat := 127

/-- A value in which at most `depth` containers nest; `fuel` bounds the number of
values on any path and in any container. -/
def readValue : Nat → Nat → List Char → Reading Json
  | 0, _, _ => .error .unfinished
  | fuel + 1, depth, cs =>
      match skipBlank cs with
      | '[' :: rest =>
          if depth = 0 then .error .malformed
          else match readArray (readValue fuel (depth - 1)) fuel rest with
            | .error broken => .error broken.fault
            | .ok (items, rest) => .ok (.array items, rest)
      | '\x7b' :: rest =>
          if depth = 0 then .error .malformed
          else match readObject (readValue fuel (depth - 1)) fuel rest with
            | .error broken => .error broken.fault
            | .ok (members, rest) => .ok (.object members, rest)
      | cs => readScalar cs

/-- One value at the front of a text, and what follows it. -/
def read (cs : List Char) : Reading Json := readValue (cs.length + 1) nestingLimit cs

/-- The outermost value of a text, or how its outermost container breaks off. -/
inductive Document
  | value (value : Json) (rest : List Char)
  | brokenArray (broken : Broken Json)
  | brokenObject (broken : Broken (String × Json))
  | fault (fault : TextFault)

def readDocument (cs : List Char) : Document :=
  let item := readValue (cs.length + 1) (nestingLimit - 1)
  match skipBlank cs with
  | '[' :: rest =>
      match readArray item (cs.length + 1) rest with
      | .error broken => .brokenArray broken
      | .ok (items, rest) => .value (.array items) rest
  | '\x7b' :: rest =>
      match readObject item (cs.length + 1) rest with
      | .error broken => .brokenObject broken
      | .ok (members, rest) => .value (.object members) rest
  | cs =>
      match readScalar cs with
      | .error fault => .fault fault
      | .ok (value, rest) => .value value rest

/-- Only blanks may follow the value of a text. -/
def isTail (cs : List Char) : Bool := (skipBlank cs).isEmpty

end Json

end EcmaScribe
