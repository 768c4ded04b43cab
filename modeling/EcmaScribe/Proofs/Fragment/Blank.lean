/-
# EcmaScribe.Proofs.Fragment.Blank -- fragments that write nothing

`Fragment.isBlank` is meant to tell that a fragment writes no token: the first and the last child
of a sequence that are not blank decide what it starts and ends with.  What is written is decided
elsewhere, by `Fragment.steps`, which in turn leaves blank children out of lines.

The two agree on all fragments but these, and `isBlank_iff_writesNothing` says so exactly.

* A list with commas counts as blank only without items, while it writes nothing with one item
  that writes nothing, such as a hole.  The list can stand deep inside (`hasItem`).
* A blank child that is marked as holding a bare `in` is blank, while it is put into parentheses
  where `in` would be misread.  On a line of its own it is left out; elsewhere the parentheses
  are written (`guardsIn`).

Both follow from what is blank or silent child by child: a blank fragment writes nothing but such
parentheses (`writes_of_isBlank`), and a fragment that writes nothing is blank unless it holds
such a list (`isBlank_eq`).
-/
import EcmaScribe.Proofs.Lexical.Braces

namespace EcmaScribe

set_option autoImplicit false

/-- A lexeme is judged blank if and only if it is spelled as the empty text. -/
theorem Lexeme.spell_eq_empty_iff {spelling : Spelling} {l : Lexeme} :
    l.spell spelling = .text [] ↔ l.isBlank = true := by
  have judged : l.writtenText spelling (.ofOptions .pretty) = [] ↔ l.isBlank = true :=
    writtenText_eq_nil_iff
  rw [← judged, writtenText]
  cases l.spell spelling with
  | text chars => simp [Token.writtenText, Layout.ofOptions]
  | number value =>
      have written : (Lexeme.number value).writtenText .plain (.ofOptions .pretty) ≠ [] :=
        writtenText_ne_nil rfl
      exact iff_of_false (by simp) written

namespace Fragment

/-! ## What is written -/

/-- Nothing is put but empty texts: no token, no number and no semicolon. -/
def WritesNothing (spelling : Spelling) (noIn : Bool) (f : Fragment) : Prop :=
  ∀ token ∈ f.writtenTokens spelling noIn, token = .text []

instance (spelling : Spelling) (noIn : Bool) (f : Fragment) :
    Decidable (f.WritesNothing spelling noIn) :=
  inferInstanceAs (Decidable (∀ token ∈ f.writtenTokens spelling noIn, token = .text []))

/-- Whether a lexeme is written that is not blank. -/
def writes (noIn : Bool) (f : Fragment) : Bool := (f.lexemes noIn).any (!·.isBlank)

theorem writesNothing_iff {spelling : Spelling} {noIn : Bool} {f : Fragment} :
    f.WritesNothing spelling noIn ↔ f.writes noIn = false := by
  simp [WritesNothing, writes, writtenTokens_eq, Lexeme.spell_eq_empty_iff]

section Writes

variable (b : Bool)

@[simp] theorem writes_empty : empty.writes b = false := by simp [writes]

@[simp] theorem writes_lexeme (l : Lexeme) : (lexeme l).writes b = !l.isBlank := by simp [writes]

@[simp] theorem writes_space : space.writes b = false := by simp [writes]

@[simp] theorem writes_lineBreak : lineBreak.writes b = false := by simp [writes]

@[simp] theorem writes_semicolon : semicolon.writes b = true := by simp [writes, Lexeme.isBlank]

@[simp] theorem writes_optionalSemicolon : optionalSemicolon.writes b = true := by
  simp [writes, Lexeme.isBlank]

@[simp] theorem writes_paren (f : Fragment) : (paren f).writes b = true := by
  simp [writes, Lexeme.isBlank]

@[simp] theorem writes_bracket (f : Fragment) : (bracket f).writes b = true := by
  simp [writes, Lexeme.isBlank]

@[simp] theorem writes_brace (f : Fragment) : (brace f).writes b = true := by
  simp [writes, Lexeme.isBlank]

@[simp] theorem writes_marked (mark : Mark) (f : Fragment) :
    (marked mark f).writes b = f.writes b := by
  simp [writes]

@[simp] theorem writes_noIn (f : Fragment) : (noIn f).writes b = f.writes true := by
  simp [writes]

@[simp] theorem writes_containsIn (f : Fragment) :
    (containsIn f).writes b = (b || f.writes false) := by
  cases b <;> simp [writes, lexemes_containsIn, Lexeme.isBlank]

@[simp] theorem writes_indent (f : Fragment) :
    (indent f).writes b = (!f.isBlank && f.writes b) := by
  cases blank : f.isBlank <;> simp [writes, lexemes_indent, blank]

@[simp] theorem writes_seq (children : List Fragment) :
    (seq children).writes b = children.any (writes b) := by
  simp only [writes, lexemes_seq, List.any_flatMap]
  rfl

@[simp] theorem writes_lines (children : List Fragment) :
    (lines children).writes b = children.any fun f => !f.isBlank && f.writes b := by
  simp only [writes, lexemes_lines, List.any_flatMap, List.any_filter]

@[simp] theorem writes_commaSep_nil : (commaSep []).writes b = false := by
  simp [writes, lexemes_commaSep, lexemesCommas]

end Writes

/-! ## Where blank and silent part -/

mutual

/-- Whether a child that is marked as holding an `in` is put into parentheses, other than on a
line of its own. -/
def guardsIn (noIn : Bool) : Fragment → Bool
  | seq children => anyGuardsIn noIn children
  | .noIn inner => inner.guardsIn true
  | containsIn inner => noIn || inner.guardsIn false
  | marked _ inner => inner.guardsIn noIn
  | _ => false

def anyGuardsIn (noIn : Bool) : List Fragment → Bool
  | [] => false
  | f :: rest => f.guardsIn noIn || anyGuardsIn noIn rest

end

mutual

/-- Whether a list that has an item stands outside all brackets. -/
def hasItem : Fragment → Bool
  | commaSep children => !children.isEmpty
  | seq children | lines children => anyHasItem children
  | indent inner | noIn inner | containsIn inner | marked _ inner => inner.hasItem
  | _ => false

def anyHasItem : List Fragment → Bool
  | [] => false
  | f :: rest => f.hasItem || anyHasItem rest

end

theorem allBlank_iff {fs : List Fragment} : allBlank fs = true ↔ ∀ f ∈ fs, f.isBlank = true := by
  induction fs with
  | nil => simp [allBlank]
  | cons f rest ih => simp [allBlank, ih]

mutual

/-- A blank fragment writes the parentheses around a marked child, or nothing at all. -/
theorem writes_of_isBlank (b : Bool) :
    (f : Fragment) → f.isBlank = true → f.writes b = f.guardsIn b
  | empty, _ | space, _ | lineBreak, _ => by simp [guardsIn]
  | lexeme l, blank => by
      rw [isBlank] at blank
      simp [guardsIn, blank]
  | seq children, blank => by
      rw [isBlank] at blank
      rw [writes_seq, any_writes_of_allBlank b children blank, guardsIn]
  | lines children, blank => by
      rw [isBlank, allBlank_iff] at blank
      have leftOut : ∀ f ∈ children, ¬ (!f.isBlank && f.writes b) = true :=
        fun f member => by simp [blank f member]
      simp only [writes_lines, List.any_eq_false.2 leftOut, guardsIn]
  | indent inner, blank => by
      rw [isBlank] at blank
      simp [guardsIn, blank]
  | .noIn inner, blank => by
      rw [isBlank] at blank
      rw [writes_noIn, writes_of_isBlank true inner blank, guardsIn]
  | containsIn inner, blank => by
      rw [isBlank] at blank
      rw [writes_containsIn, writes_of_isBlank false inner blank, guardsIn]
  | marked _ inner, blank => by
      rw [isBlank] at blank
      rw [writes_marked, writes_of_isBlank b inner blank, guardsIn]
  | commaSep children, blank => by
      rw [isBlank, List.isEmpty_iff] at blank
      simp [guardsIn, blank]
  | paren _, blank | bracket _, blank | brace _, blank | semicolon, blank
  | optionalSemicolon, blank => by simp [isBlank] at blank

theorem any_writes_of_allBlank (b : Bool) :
    (fs : List Fragment) → allBlank fs = true → fs.any (writes b) = anyGuardsIn b fs
  | [], _ => rfl
  | f :: rest, blank => by
      rw [allBlank, Bool.and_eq_true] at blank
      rw [List.any_cons, anyGuardsIn, writes_of_isBlank b f blank.1,
        any_writes_of_allBlank b rest blank.2]

end

mutual

/-- What is blank or writes nothing is blank, unless it has an item of a list.  The two cases go
together, since lines leave out blank children whatever they would write. -/
theorem isBlank_eq (b : Bool) :
    (f : Fragment) → f.isBlank = true ∨ f.writes b = false → f.isBlank = !f.hasItem
  | empty, _ | space, _ | lineBreak, _ => by simp [isBlank, hasItem]
  | lexeme l, quiet => by simpa [isBlank, hasItem] using quiet
  | seq children, quiet => by
      rw [isBlank, hasItem]
      refine allBlank_eq b children fun f member => ?_
      simp only [isBlank, allBlank_iff, writes_seq, List.any_eq_false, Bool.not_eq_true] at quiet
      exact quiet.imp (· f member) (· f member)
  | lines children, quiet => by
      rw [isBlank, hasItem]
      refine allBlank_eq b children fun f member => ?_
      simp only [isBlank, allBlank_iff, writes_lines, List.any_eq_false, Bool.not_eq_true,
        Bool.and_eq_false_iff, Bool.not_eq_false'] at quiet
      exact quiet.elim (fun blank => .inl (blank f member)) fun nothing => nothing f member
  | indent inner, quiet => by
      rw [isBlank, hasItem]
      rw [isBlank, writes_indent, Bool.and_eq_false_iff, Bool.not_eq_false'] at quiet
      exact isBlank_eq b inner (quiet.elim .inl id)
  | .noIn inner, quiet => by
      rw [isBlank, hasItem]
      rw [isBlank, writes_noIn] at quiet
      exact isBlank_eq true inner quiet
  | containsIn inner, quiet => by
      rw [isBlank, hasItem]
      rw [isBlank, writes_containsIn, Bool.or_eq_false_iff] at quiet
      exact isBlank_eq false inner (quiet.imp_right And.right)
  | marked _ inner, quiet => by
      rw [isBlank, hasItem]
      rw [isBlank, writes_marked] at quiet
      exact isBlank_eq b inner quiet
  | commaSep children, _ => by simp [isBlank, hasItem]
  | paren _, quiet | bracket _, quiet | brace _, quiet | semicolon, quiet
  | optionalSemicolon, quiet => by simp [isBlank] at quiet

theorem allBlank_eq (b : Bool) : (fs : List Fragment) →
    (∀ f ∈ fs, f.isBlank = true ∨ f.writes b = false) → allBlank fs = !anyHasItem fs
  | [], _ => rfl
  | f :: rest, quiet => by
      obtain ⟨first, others⟩ := List.forall_mem_cons.1 quiet
      rw [allBlank, anyHasItem, isBlank_eq b f first, allBlank_eq b rest others, Bool.not_or]

end

/-- **Blank fragments and fragments that write nothing are the same, but for two kinds**: a blank
fragment with a marked child in parentheses, and a fragment that writes nothing although it has an
item of a list. -/
theorem isBlank_iff_writesNothing (f : Fragment) (spelling : Spelling) (noIn : Bool) :
    (f.isBlank = true ↔ f.WritesNothing spelling noIn) ↔
      ¬ (f.isBlank = true ∧ f.guardsIn noIn = true) ∧
      ¬ (f.WritesNothing spelling noIn ∧ f.hasItem = true) := by
  rw [writesNothing_iff]
  constructor
  · intro agree
    refine ⟨fun ⟨blank, guarded⟩ => ?_, fun ⟨nothing, listed⟩ => ?_⟩
    · have written := writes_of_isBlank noIn f blank
      rw [agree.1 blank, guarded] at written
      cases written
    · have blank := isBlank_eq noIn f (.inr nothing)
      rw [agree.2 nothing, listed] at blank
      cases blank
  · rintro ⟨unguarded, unlisted⟩
    refine ⟨fun blank => ?_, fun nothing => ?_⟩
    · rw [writes_of_isBlank noIn f blank]
      exact Bool.eq_false_iff.2 fun guarded => unguarded ⟨blank, guarded⟩
    · rw [isBlank_eq noIn f (.inr nothing), Bool.not_eq_true']
      exact Bool.eq_false_iff.2 fun listed => unlisted ⟨nothing, listed⟩

/-- A list of one hole writes nothing and is not blank; nothing at all, marked as holding an `in`,
is blank and gets parentheses. -/
theorem misjudged_loneHole :
    ((commaSep [empty]).isBlank = false ∧ (commaSep [empty]).WritesNothing .plain false) ∧
    (containsIn empty).isBlank = true ∧ ¬ (containsIn empty).WritesNothing .plain true := by
  decide

end Fragment

end EcmaScribe
