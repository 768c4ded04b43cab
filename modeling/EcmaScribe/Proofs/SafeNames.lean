/-
# EcmaScribe.Proofs.SafeNames -- names read back from safe output

Safe output writes the names of a script with their non-ASCII characters escaped, in one of two
ways: the name of a variable has characters beyond U+FFFF escaped in braces, any other name has
them escaped as two units.  A reader takes the first for the character and refuses the second,
so `readName_of_mem_pieces` tells exactly which names survive.
-/
import EcmaScribe.Proofs.Text.NameReading
import EcmaScribe.Proofs.WordSeparation

namespace EcmaScribe

set_option autoImplicit false

open Text

variable {k : IdentifierClass}

/-- A name in a script is a name in the tree. -/
theorem Lexeme.Known.leaf_of_name {admits : Leaf → Prop} {role : NameRole} {name : String}
    (h : (Lexeme.name role name).Known admits) :
    ∃ leaf, admits leaf ∧ leaf.lexeme? = some (.name role name) := by
  generalize same : Lexeme.name role name = l at h
  cases h with
  | leaf admitted written => exact ⟨_, admitted, written⟩
  | infinity => cases same
  | fixed => cases same
  | chunk => cases same

/-- The text of a leaf that is written as a name is one. -/
theorem Leaf.Named.isName {leaf : Leaf} (h : leaf.Named k) {role : NameRole} {name : String}
    (written : leaf.lexeme? = some (.name role name)) : k.isName name.toList = true := by
  cases leaf with
  | name =>
      cases written
      exact h
  | key value =>
      simp only [Leaf.lexeme?, Option.some.injEq] at written
      split at written
      · rename_i bare
        cases written
        exact h bare
      · split at written <;> cases written
  | template => cases written
  | _ => cases written

namespace Node

/-- **Which names survive** in safe output: all but those with a character beyond U+FFFF that
are no name of a variable.  Such a name is refused by a reader. -/
theorem readName_of_mem_pieces {program : Program} (named : ∀ leaf ∈ program.leaves, leaf.Named k)
    {before after : List Piece} {p : Piece}
    (listed : program.pieces .webSafe .webSafe = before ++ p :: after)
    {role : NameRole} {name : String} (written : p.lexeme = .name role name) :
    program.webSafe = Piece.joined before ++ p.gap ++ p.text ++ Piece.joined after ∧
      (∃ leaf ∈ program.leaves, leaf.lexeme? = Option.some (.name role name)) ∧
      readName p.text =
        if role.isVariable || name.toList.all (fun c => !isAstral c) then Option.some name.toList
        else Option.none := by
  have admitted : ∀ leaf ∈ program.leaves, leaf ∈ program.leaves ∧ leaf.Named k :=
    fun leaf member => ⟨member, named leaf member⟩
  obtain ⟨known, text, -⟩ :=
    known_of_mem_pieces admitted .webSafe .webSafe p (by simp [listed])
  rw [written] at known text
  obtain ⟨leaf, ⟨member, isNamed⟩, spelled⟩ := known.leaf_of_name
  have isName := isNamed.isName spelled
  have noBackslash : ∀ c ∈ name.toList, c ≠ '\\' := fun c inName =>
    (isPlain_of_continues (IdentifierClass.continues_of_isName isName c inName)).1
  refine ⟨?_, ⟨leaf, member, spelled⟩, ?_⟩
  · rw [webSafe_eq_joined, listed]
    simp
  · rw [text, writtenText_name isName, readName_escaped noBackslash]
    cases role.isVariable <;> simp [isReadable]

/-- A property whose name is a single character beyond U+FFFF. -/
def ideographProperty : Program :=
  .script .nil
    (.cons (.evaluate (.staticMember (.subject (.identifier (.usedName "a"))) "𠀀")) .nil)

/-- A reader refuses the name of the property. -/
theorem readName_ideographProperty :
    (∀ leaf ∈ ideographProperty.leaves, leaf.Named .ofTables) ∧
      ideographProperty.webSafe = "a.\\uD840\\uDC00;".toList ∧
      readName "\\uD840\\uDC00".toList = Option.none := by
  have named : ∀ leaf ∈ ideographProperty.leaves, leaf.Named .ofTables := by
    show ∀ leaf ∈ [Leaf.name .member "𠀀", .name .used "a"], leaf.Named .ofTables
    have first : IdentifierClass.ofTables.isName "𠀀".toList = true := by decide +kernel
    have second : IdentifierClass.ofTables.isName "a".toList = true := by decide
    simp only [List.forall_mem_cons]
    exact ⟨first, second, by simp⟩
  have listed : ideographProperty.pieces .webSafe .webSafe =
      [⟨.name .used "a", [], ['a']⟩, ⟨.verbatim ".", [], ['.']⟩] ++
        ⟨.name .member "𠀀", [], "\\uD840\\uDC00".toList⟩ :: [.semicolon] := by
    decide +kernel
  obtain ⟨written, -, read⟩ := readName_of_mem_pieces named listed rfl
  refine ⟨named, written.trans (by decide), read.trans (by decide)⟩

end Node

end EcmaScribe
