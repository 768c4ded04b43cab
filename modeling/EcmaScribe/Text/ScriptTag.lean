/-
# EcmaScribe.Text.ScriptTag -- tags that would end or reopen a script element

Inside an HTML script element the texts `<script` and `</script`, in any letter
case, open a tag once a terminator follows: a blank, a slash or `>`.  `openerLength?`
recognises the text without its terminator, `scriptTag` the terminated one.  The
long s, U+017F, counts as an `s`, since it folds to it.

`formsOpenerAcross` tells whether writing one text after another would spell an
opener over the seam.  An opener has at most eight characters, so seven on the left
and eight on the right decide.
-/
import EcmaScribe.Text.Replace

namespace EcmaScribe

set_option autoImplicit false

namespace Text

/-- Equality of letters up to case; the second letter is in lower case. -/
def isLetter (c letter : Char) : Bool :=
  c.toLower = letter || (letter = 's' && c = '\u017f')

/-- Whether a text starts with the given lower-case word, up to case. -/
def startsWithWord : List Char → List Char → Bool
  | [], _ => true
  | _ :: _, [] => false
  | letter :: word, c :: rest => isLetter c letter && startsWithWord word rest

def scriptWord : List Char := ['s', 'c', 'r', 'i', 'p', 't']

/-- The slash of a closing tag, if there is one, and the text after it. -/
def splitSlash : List Char → List Char × List Char
  | '/' :: rest => (['/'], rest)
  | cs => ([], cs)

/-- The length of a tag opener at the front of a text. -/
def openerLength? (cs : List Char) : Option Nat :=
  match cs with
  | '<' :: rest =>
      let (slash, rest) := splitSlash rest
      if startsWithWord scriptWord rest then some (7 + slash.length) else none
  | _ => none

def endsTagName (c : Char) : Bool :=
  c = '\t' || c = '\n' || c = '\x0c' || c = '\x0d' || c = ' ' || c = '/' || c = '>'

/-- A terminated tag opener; the groups are the slash, the first letter of the name,
and the rest with its terminator. -/
def scriptTag : Pattern := fun cs =>
  match cs with
  | '<' :: rest =>
      let (slash, rest) := splitSlash rest
      match rest with
      | s :: tail =>
          match tail.drop 5 with
          | terminator :: _ =>
              if startsWithWord scriptWord rest && endsTagName terminator then
                some ⟨'<' :: slash ++ s :: tail.take 6, [slash, [s], tail.take 6]⟩
              else none
          | [] => none
      | [] => none
  | _ => none

/-- Start and end of every opener, from the left; openers do not overlap.  `skip` counts
characters that belong to the opener found last. -/
def openersFrom : Nat → Nat → List Char → List (Nat × Nat)
  | _, _, [] => []
  | position, skip + 1, _ :: rest => openersFrom (position + 1) skip rest
  | position, 0, c :: rest =>
      match openerLength? (c :: rest) with
      | some length =>
          (position, position + length) :: openersFrom (position + 1) (length - 1) rest
      | none => openersFrom (position + 1) 0 rest

/-- Whether an opener starts in the first text and ends in the second. -/
def straddles (left right : List Char) : Bool :=
  (openersFrom 0 0 (left ++ right)).any fun (start, stop) =>
    decide (start < left.length) && decide (left.length < stop)

/-- Whether `right`, written directly after the text whose characters are given newest
first, spells an opener over the seam. -/
def formsOpenerAfter (written right : List Char) : Bool :=
  straddles (written.take 7).reverse (right.take 8)

def formsOpenerAcross (left right : List Char) : Bool := formsOpenerAfter left.reverse right

end Text

end EcmaScribe
