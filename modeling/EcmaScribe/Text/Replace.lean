/-
# EcmaScribe.Text.Replace -- replacing every match of a pattern

A pattern looks at the front of a text, `matchesFrom` lists where it matches: from the left, each
match behind the one before.  `replaceAll` goes through this list.  For each match it writes the
text since the last one and the replacement, and behind the last match it copies the rest.  The
computed replacement is handed over as a template, so it is written `literally`.

Writing begins with the first match, so a text in which nothing matches is handed back as it is.
-/
import EcmaScribe.Text.Template

namespace EcmaScribe

set_option autoImplicit false

namespace Text

/-- What a pattern finds at the front of a text; a match is never empty. -/
abbrev Pattern := List Char → Option Match

/-! ## Matches -/

/-- A match and the places in the text where it starts and ends. -/
structure MatchAt where
  start : Nat
  stop : Nat
  found : Match
  deriving DecidableEq, Repr

/-- The matches of a text that starts at a position, without its first `skip` characters, which
belong to the match found last. -/
def matchesFrom (pattern : Pattern) : Nat → Nat → List Char → List MatchAt
  | _, _, [] => []
  | position, skip + 1, _ :: rest => matchesFrom pattern (position + 1) skip rest
  | position, 0, c :: rest =>
      match pattern (c :: rest) with
      | some m =>
          ⟨position, position + 1 + (m.whole.length - 1), m⟩ ::
            matchesFrom pattern (position + 1) (m.whole.length - 1) rest
      | none => matchesFrom pattern (position + 1) 0 rest

/-- Whether the pattern matches anywhere. -/
def occurs (pattern : Pattern) : List Char → Bool
  | [] => false
  | c :: rest => (pattern (c :: rest)).isSome || occurs pattern rest

/-! ## Replacing -/

/-- What has been written, if there was a match, and the place up to which it stands for the
text. -/
structure Rewriting where
  written : Option (List Char)
  last : Nat
  deriving DecidableEq, Repr

namespace Rewriting

def start : Rewriting := ⟨none, 0⟩

/-- Write the text up to a match, and its replacement. -/
def replace (replacement : Match → List Char) (text : List Char) (r : Rewriting) (m : MatchAt) :
    Rewriting where
  written := some (r.written.getD [] ++ (text.take m.start).drop r.last ++
    expand m.found (literally (replacement m.found)))
  last := m.stop

/-- The rewritten text, if there was a match. -/
def finish (text : List Char) (r : Rewriting) : Option (List Char) :=
  r.written.map (· ++ text.drop r.last)

end Rewriting

/-- The text with its matches replaced; `none` is a text without matches, handed back. -/
def replaced? (pattern : Pattern) (replacement : Match → List Char) (text : List Char) :
    Option (List Char) :=
  ((matchesFrom pattern 0 0 text).foldl (Rewriting.replace replacement text) .start).finish text

def replaceAll (pattern : Pattern) (replacement : Match → List Char) (text : List Char) :
    List Char :=
  (replaced? pattern replacement text).getD text

end Text

end EcmaScribe
