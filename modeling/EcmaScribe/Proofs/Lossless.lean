/-
# EcmaScribe.Proofs.Lossless -- programs survive their interchange text

`Node.ofText?_of_varied` is the main statement: a program is read back from the text of
every variation of its value, in particular from its own text, and every program that was
read from some text can be written and read again.

It joins the two halves of the way: the reader gives back the value of a text
(`Json.readDocument_text`), and the schema gives back the node of a value
(`Node.toNode_of_varied`).  A program that was read is short enough to be read again,
since it nests no deeper than what it was read from (`Json.depth_toJson_le`).
-/
import EcmaScribe.Interchange.Document
import EcmaScribe.Proofs.Interchange.Nesting
import EcmaScribe.Proofs.Interchange.Presentation
import EcmaScribe.Proofs.Json.Reading

namespace EcmaScribe

set_option autoImplicit false

open Json (Varied nestingLimit readDocument isTail)

namespace Node

/-- However a text spells a variation of the value of a program, it is read as the program. -/
theorem ofText?_of_readDocument (program : Program) {other : Json} {text rest : List Char}
    (varied : Varied program.toJson other) (read : readDocument text = .value other rest)
    (tail : isTail rest) : ofText? .program text = .ok program := by
  simp only [ofText?, read, toNode_of_varied program varied, tail, if_true]

theorem ofText?_text (program : Program) {other : Json} (varied : Varied program.toJson other)
    (depth : other.depth ≤ nestingLimit)
    (back : ∀ number ∈ other.numbers, number.IsReadBack) :
    ofText? .program other.text = .ok program :=
  ofText?_of_readDocument program varied (Json.readDocument_text back depth) rfl

/-- What a program was read from nests deep enough for the program. -/
theorem depth_le_of_ofText? {program : Program} {text : List Char}
    (h : ofText? .program text = .ok program) : program.toJson.depth ≤ nestingLimit := by
  unfold ofText? at h
  split at h
  · next json rest read =>
      split at h
      · cases h
      · next node decoded =>
          split at h
          · cases h
            exact Nat.le_trans (Json.depth_toJson_le decoded) (Json.depth_of_readDocument read)
          · cases h
  · cases h
  · cases h
  · cases h

/-- **Interchange loses nothing, and presentation does not matter.**  A program is read back
from every text that spells a variation of its value; the text of a variation is one, if it
nests no deeper than the limit and its numbers are read back as they are written.  So is the
program's own text, and that of every program that was itself read from a text. -/
theorem ofText?_of_varied (program : Program) :
    (∀ other, Varied program.toJson other →
      (∀ text rest, readDocument text = .value other rest → isTail rest →
        ofText? .program text = .ok program) ∧
      (other.depth ≤ nestingLimit → (∀ number ∈ other.numbers, number.IsReadBack) →
        ofText? .program other.text = .ok program)) ∧
    ((∀ number ∈ program.toJson.numbers, number.IsReadBack) →
      (program.toJson.depth ≤ nestingLimit → ofText? .program program.toText = .ok program) ∧
      ∀ text, ofText? .program text = .ok program →
        ofText? .program program.toText = .ok program) := by
  have own (back : ∀ number ∈ program.toJson.numbers, number.IsReadBack)
      (depth : program.toJson.depth ≤ nestingLimit) :
      ofText? .program program.toText = .ok program :=
    ofText?_text program (.refl program.toJson) depth back
  exact ⟨fun other varied => ⟨fun _ _ => ofText?_of_readDocument program varied,
      ofText?_text program varied⟩,
    fun back => ⟨own back, fun text h => own back (depth_le_of_ofText? h)⟩⟩

/-! ### A generator that returns 0.1 -/

/-- `function* f() { return 0.1; }` -/
def generatorScript : Program :=
  .script .nil (.cons (.functionStatement
    (.functionDeclaration false true (.boundName "f") (.parameters .nil .none)
      (.functionBody .nil (.cons (.returnValue (.some (.number ⟨0x3FB999999999999A⟩))) .nil))))
    .nil)

/-- The same with the members of every map in the opposite order, so that each tag comes
last, without what may be left out, and with a remark. -/
def generatorTurned : Json :=
  let returned := Json.object [("value", .number (.float ⟨0x3FB999999999999A⟩)),
    ("type", .string "LiteralNumericExpression")]
  let body := Json.object [
    ("statements", .array [.object [("expression", returned),
      ("type", .string "ReturnStatement")]]),
    ("directives", .array [])]
  .object [
    ("statements", .array [.object [
      ("remark", .object [("type", .array [.number (.integer (-7)), .null])]),
      ("body", body),
      ("params", .object [("items", .array [])]),
      ("name", .object [("name", .string "f")]),
      ("isGenerator", .bool true),
      ("type", .string "FunctionDeclaration")]]),
    ("directives", .array []),
    ("type", .string "Script")]

theorem varied_generatorTurned : Varied generatorScript.toJson generatorTurned := by
  have turned {members : List (String × Json)} : members.Perm members.reverse :=
    (List.reverse_perm members).symm
  have plain {members : List (String × Json)} : ∀ member ∈ ([] : List (String × Json)),
      member.1 ≠ tagKey ∧ member.1 ∉ members.map Prod.fst := List.forall_mem_nil _
  refine .object (.keep (.string _) (.keep (.array .nil) (.keep (.array (.cons ?function .nil))
    .nil))) plain turned
  -- the flag of the function is left out, and the remark is added
  refine .object (.keep (.string _) (.drop .synchronous (.keep (.bool _) (.keep ?name
    (.keep ?parameters (.keep ?body .nil)))))) (List.forall_mem_singleton.2 ?remark) turned
  case name => exact .object (.keep (.string _) .nil) plain turned
  case parameters => exact .object (.keep (.array .nil) (.drop (.absent _) .nil)) plain turned
  case remark => exact ⟨by decide, by decide⟩
  case body =>
    refine .object (.keep (.array .nil) (.keep (.array (.cons ?returned .nil)) .nil)) plain turned
    refine .object (.keep (.string _) (.keep ?value .nil)) plain turned
    exact .object (.keep (.string _) (.keep (.number _) .nil)) plain turned

theorem ofText?_generatorTurned :
    generatorTurned.depth = 7 ∧ generatorTurned.text ≠ generatorScript.toText ∧
    ofText? .program generatorTurned.text = .ok generatorScript ∧
    ofText? .program generatorScript.toText = .ok generatorScript := by
  have depth : generatorTurned.depth = 7 := rfl
  have back : ∀ number ∈ generatorTurned.numbers, number.IsReadBack :=
    List.forall_mem_cons.2 ⟨JsonNumber.isReadBack_integer (by decide) (by decide),
      List.forall_mem_singleton.2 rfl⟩
  have ownBack : ∀ number ∈ generatorScript.toJson.numbers, number.IsReadBack :=
    List.forall_mem_singleton.2 rfl
  obtain ⟨others, own⟩ := ofText?_of_varied generatorScript
  have turned := (others generatorTurned varied_generatorTurned).2 (depth ▸ by decide) back
  exact ⟨depth, by decide, turned, (own ownBack).2 _ turned⟩

end Node

end EcmaScribe
