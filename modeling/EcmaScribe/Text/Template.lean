/-
# EcmaScribe.Text.Template -- replacement templates

A replacement may refer to the groups of what it replaces: `$1` and `$name` stand
for a group, braces around the name end it early, and `$$` is a dollar sign.
`expand` fills a template in; everything that is no reference is copied.

`literally` doubles the dollar signs of a text, so that its expansion is the text
itself whatever the groups are.
-/

namespace EcmaScribe

set_option autoImplicit false

/-- A piece of text that a pattern found, and the parts of it that the pattern
singles out. -/
structure Match where
  whole : List Char
  groups : List (List Char)
  deriving DecidableEq, Repr

namespace Match

/-- Group zero is the whole match; a group that is not there is empty. -/
def group (m : Match) : Nat → List Char
  | 0 => m.whole
  | n + 1 => m.groups.getD n []

end Match

namespace Text

def isReferenceChar (c : Char) : Bool := c.isAlphanum || c = '_'

/-- The group that a reference names; only numbers name groups. -/
def referredGroup (m : Match) (name : List Char) : List Char :=
  if !name.isEmpty && name.all Char.isDigit then
    m.group (name.foldl (fun n c => 10 * n + (c.toNat - 48)) 0)
  else []

/-- A reference after its dollar sign: its name and the text after it. -/
def reference? (cs : List Char) : Option (List Char × List Char) :=
  match cs with
  | '\x7b' :: rest =>
      match rest.dropWhile (· ≠ '\x7d') with
      | _ :: after => some (rest.takeWhile (· ≠ '\x7d'), after)
      | [] => none
  | _ =>
      let name := cs.takeWhile isReferenceChar
      if name.isEmpty then none else some (name, cs.dropWhile isReferenceChar)

theorem reference?_length {cs name rest : List Char} (h : reference? cs = some (name, rest)) :
    rest.length ≤ cs.length := by
  have drop_le (p : Char → Bool) (l : List Char) : (l.dropWhile p).length ≤ l.length :=
    (List.dropWhile_sublist p).length_le
  unfold reference? at h
  split at h
  · rename_i inner
    split at h
    · rename_i after heq
      have bound := drop_le (· ≠ '\x7d') inner
      rw [heq] at bound
      simp only [Option.some.injEq, Prod.mk.injEq] at h
      rw [← h.2]
      simp only [List.length_cons] at bound ⊢
      omega
    · cases h
  · dsimp only at h
    split at h
    · cases h
    · simp only [Option.some.injEq, Prod.mk.injEq] at h
      rw [← h.2]
      exact drop_le _ _

/-- Fill in the references of a template. -/
def expand (m : Match) (template : List Char) : List Char :=
  match template with
  | [] => []
  | '$' :: '$' :: rest => '$' :: expand m rest
  | '$' :: rest =>
      match _h : reference? rest with
      | some (name, after) => referredGroup m name ++ expand m after
      | none => '$' :: expand m rest
  | c :: rest => c :: expand m rest
termination_by template.length
decreasing_by
  · simp only [List.length_cons]; omega
  · have := reference?_length (by assumption)
    simp only [List.length_cons]; omega
  · simp only [List.length_cons]; omega
  · simp only [List.length_cons]; omega

/-- The template that expands to the given text. -/
def literally (text : List Char) : List Char :=
  text.flatMap fun c => if c = '$' then ['$', '$'] else [c]

end Text

end EcmaScribe
