/-
# EcmaScribe.Proofs.Tree.Statements -- the statements of a program and where they are written

The statements of a program are its top-level statements and all that these hold, those in the
bodies of functions and arrow functions included.  What a statement writes stands in one piece in
what the program writes, since no statement is blank (`exists_lexemes_of_mem_statements`).
-/
import EcmaScribe.Proofs.Tree.Composed
import EcmaScribe.Proofs.Tree.Within

namespace EcmaScribe

set_option autoImplicit false

open Fragment

namespace Node

/-- A statement tells of itself. -/
def ownStatement {c : Category} (n : Node c) : List Statement :=
  match c, n with
  | .statement, s => [s]
  | _, _ => []

/-- The statements of a tree, at any depth. -/
def statements {c : Category} (n : Node c) : List Statement := n.collect ownStatement

theorem forall_mem_ownStatement {p : {c : Category} → Node c → Statement → Prop}
    (here : ∀ s : Statement, p s s) {c : Category} (n : Node c) : ∀ s ∈ n.ownStatement, p n s := by
  intro s member
  unfold ownStatement at member
  split at member
  · obtain rfl := List.mem_singleton.1 member
    exact here s
  · cases member

/-- A statement writes something: a keyword, a brace, or the semicolon at its end. -/
theorem isBlank_fragment (s : Statement) : s.fragment.isBlank = false := by
  have headed {word : String} (named : word ≠ "") (fs : List Fragment) :
      (spaced (token word :: fs)).isBlank = false := by
    have keyword : Within (token word) (spaced (token word :: fs)) :=
      .spaced List.mem_cons_self .here
    exact keyword.isBlank (by simp [token, isBlank, Lexeme.isBlank, named])
  have ended (f : Fragment) : (Fragment.statement f).isBlank = false := by
    have semicolon : Within .optionalSemicolon (Fragment.statement f) := .seq (by simp) .here
    exact semicolon.isBlank (by simp [isBlank])
  cases s with
  | empty =>
      show Fragment.semicolon.isBlank = false
      simp [isBlank]
  | blockStatement body =>
      cases body with
      | block statements =>
          show (Fragment.block statements.fragment).isBlank = false
          unfold Fragment.block
          split <;> simp [isBlank, braceLines]
  | breakTo | continueTo | debugger | doWhile | evaluate | returnValue | throw | declare =>
      exact ended _
  | forIn | forOf | forLoop | switch | switchWithDefault | tryCatch | tryFinally | whileLoop
  | withObject => exact headed (by decide) _
  | ifElse test consequent alternate =>
      cases alternate with
      | some alternate => exact headed (by decide) _
      | none =>
          show (Fragment.marked .endsWithMissingElse _).isBlank = false
          rw [isBlank]
          exact headed (by decide) _
  | labeled label body =>
      have colon : Within (token ":") (keyed (.lexeme (.name .label label)) body.fragment) :=
        .seq (by simp) .here
      exact colon.isBlank (by simp [token, isBlank, Lexeme.isBlank])
  | functionStatement declaration =>
      cases declaration with
      | functionDeclaration isAsync isGenerator name params body =>
          have keyword : Within (token "function") (Fragment.function isAsync isGenerator
              (declaredName name name.fragment) params.fragment body.fragment) :=
            .seq (by simp) .here
          exact keyword.isBlank (by simp [token, isBlank, Lexeme.isBlank])
  | classStatement declaration =>
      cases declaration with
      | classDeclaration name heritage elements =>
          cases heritage <;> exact headed (by decide) _

theorem placed_statements : Placed ownStatement (fragment (c := .statement)) where
  here := forall_mem_ownStatement (p := fun {c} n s => c.Contains s.fragment n.fragment)
    fun _ => .here
  written := forall_mem_ownStatement (p := fun _ s => s.fragment.isBlank = false) isBlank_fragment
  unnamed := rfl
  bare := fun params name sole => by
    rw [eq_of_soleName? sole]
    rfl

/-- **What a statement writes** stands in one piece in what the program writes. -/
theorem exists_lexemes_of_mem_statements {program : Program} {s : Statement}
    (member : s ∈ program.statements) :
    ∃ before b after, program.fragment.lexemes false = before ++ s.fragment.lexemes b ++ after := by
  have within : Within s.fragment program.fragment :=
    contains_of_mem_collect placed_statements program s member
  exact within.exists_lexemes (isBlank_fragment s) false

/-- What is promised of the leaves of a program is promised of those of its statements. -/
theorem forall_leaves_of_mem_statements {admits : Leaf → Prop} {program : Program}
    (h : ∀ leaf ∈ program.leaves, admits leaf) :
    ∀ s ∈ program.statements, ∀ leaf ∈ s.leaves, admits leaf :=
  forall_mem_collect (p := fun s : Statement => ∀ leaf ∈ s.leaves, admits leaf)
    (fun n hn s member => forall_mem_ownStatement
      (p := fun n s => (∀ leaf ∈ n.leaves, admits leaf) → ∀ leaf ∈ s.leaves, admits leaf)
      (fun _ own => own) n s member hn) program h

end Node

end EcmaScribe
