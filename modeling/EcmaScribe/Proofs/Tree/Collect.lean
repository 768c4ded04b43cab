/-
# EcmaScribe.Proofs.Tree.Collect -- what the parts of a tree tell

`Node.collect` lists what a tree tells itself, then what its children tell.  What holds of a
list holds of its pieces, which hands the promises about the leaves of a tree down to its
children (`forall_child` to `forall_four`).  And what a tree tells of itself whenever its
leaves are admitted holds of all that its parts tell (`forall_mem_collect`).

`list_induction` is the induction over a list of trees.
-/
import EcmaScribe.Proofs.Tree.Leaf

namespace EcmaScribe

set_option autoImplicit false

namespace Node

section Children

variable {α : Type} {p : α → Prop} {own k l m n : List α}

theorem forall_child (h : ∀ x ∈ own ++ l, p x) : ∀ x ∈ l, p x := (List.forall_mem_append.1 h).2

theorem forall_own (h : ∀ x ∈ own ++ l, p x) : ∀ x ∈ own, p x := (List.forall_mem_append.1 h).1

theorem forall_two (h : ∀ x ∈ own ++ l ++ m, p x) : (∀ x ∈ l, p x) ∧ ∀ x ∈ m, p x :=
  ⟨forall_child (forall_own h), forall_child h⟩

theorem forall_three (h : ∀ x ∈ own ++ k ++ l ++ m, p x) :
    (∀ x ∈ k, p x) ∧ (∀ x ∈ l, p x) ∧ ∀ x ∈ m, p x :=
  ⟨forall_child (forall_own (forall_own h)), forall_two h⟩

theorem forall_four (h : ∀ x ∈ own ++ k ++ l ++ m ++ n, p x) :
    (∀ x ∈ k, p x) ∧ (∀ x ∈ l, p x) ∧ (∀ x ∈ m, p x) ∧ ∀ x ∈ n, p x :=
  ⟨(forall_three (forall_own h)).1, (forall_three (forall_own h)).2.1, forall_two h⟩

theorem forall_mem_one (hOwn : ∀ x ∈ own, p x) (hk : ∀ x ∈ k, p x) : ∀ x ∈ own ++ k, p x :=
  List.forall_mem_append.2 ⟨hOwn, hk⟩

theorem forall_mem_two (hOwn : ∀ x ∈ own, p x) (hk : ∀ x ∈ k, p x) (hl : ∀ x ∈ l, p x) :
    ∀ x ∈ own ++ k ++ l, p x := forall_mem_one (forall_mem_one hOwn hk) hl

theorem forall_mem_three (hOwn : ∀ x ∈ own, p x) (hk : ∀ x ∈ k, p x) (hl : ∀ x ∈ l, p x)
    (hm : ∀ x ∈ m, p x) : ∀ x ∈ own ++ k ++ l ++ m, p x :=
  forall_mem_one (forall_mem_two hOwn hk hl) hm

theorem forall_mem_four (hOwn : ∀ x ∈ own, p x) (hk : ∀ x ∈ k, p x) (hl : ∀ x ∈ l, p x)
    (hm : ∀ x ∈ m, p x) (hn : ∀ x ∈ n, p x) : ∀ x ∈ own ++ k ++ l ++ m ++ n, p x :=
  forall_mem_one (forall_mem_three hOwn hk hl hm) hn

end Children

/-- **What each part tells.**  A property that every node with admitted leaves gives to what it
tells of itself holds of what the whole tree tells. -/
theorem forall_mem_collect {α : Type} {own : {c : Category} → Node c → List α} {p : α → Prop}
    {admits : Leaf → Prop}
    (here : ∀ {c : Category} (n : Node c), (∀ l ∈ n.leaves, admits l) → ∀ x ∈ own n, p x)
    {c : Category} (n : Node c) (h : ∀ l ∈ n.leaves, admits l) : ∀ x ∈ n.collect own, p x := by
  induction n with
  | some _ ih | exported _ ih | exportFrom _ _ ih | exportLocals _ ih | exportDefault _ ih
  | itemStatement _ ih | importSpecifier _ _ ih | exportFunction _ ih | exportClass _ ih
  | exportVariables _ ih | exportLocalSpecifier _ _ ih | defaultFunction _ ih | defaultClass _ ih
  | defaultExpression _ ih | blockStatement _ ih | evaluate _ ih | labeled _ _ ih
  | returnValue _ ih | throw _ ih | declare _ ih | functionStatement _ ih | classStatement _ ih
  | block _ ih | loopVariables _ ih | loopTarget _ ih | initVariables _ ih | initExpression _ ih
  | switchDefault _ ih | variableDeclaration _ _ ih | arrowBlock _ ih | arrowResult _ ih
  | classElement _ _ ih | array _ ih | await _ ih | identifier _ ih | object _ ih
  | staticMember _ _ ih | unary _ _ ih | update _ _ _ ih | «yield» _ ih | yieldFrom _ ih
  | subject _ ih | spread _ ih | argument _ ih | substitution _ ih | shorthand _ ih
  | methodProperty _ ih | computedName _ ih | bindingName _ ih | objectBinding _ ih
  | parameter _ ih | targetName _ ih | staticMemberTarget _ _ ih | objectTarget _ ih
  | simpleTarget _ ih | targetElement _ ih =>
      exact forall_mem_one (here _ h) (ih (forall_child h))
  | cons _ _ ih₁ ih₂ | script _ _ ih₁ ih₂ | moduleRoot _ _ ih₁ ih₂ | importNames _ _ _ ih₁ ih₂
  | importNamespace _ _ _ ih₁ ih₂ | doWhile _ _ ih₁ ih₂ | switch _ _ ih₁ ih₂
  | tryCatch _ _ ih₁ ih₂ | whileLoop _ _ ih₁ ih₂ | withObject _ _ ih₁ ih₂
  | switchCase _ _ ih₁ ih₂ | catchClause _ _ ih₁ ih₂ | declarator _ _ ih₁ ih₂
  | parameters _ _ ih₁ ih₂ | functionBody _ _ ih₁ ih₂ | getter _ _ ih₁ ih₂ | arrow _ _ _ ih₁ ih₂
  | assign _ _ ih₁ ih₂ | binary _ _ _ ih₁ ih₂ | call _ _ ih₁ ih₂ | compoundAssign _ _ _ ih₁ ih₂
  | computedMember _ _ ih₁ ih₂ | new _ _ ih₁ ih₂ | template _ _ ih₁ ih₂
  | dataProperty _ _ ih₁ ih₂ | arrayBinding _ _ ih₁ ih₂ | bindingWithDefault _ _ ih₁ ih₂
  | bindingShorthand _ _ ih₁ ih₂ | bindingProperty _ _ ih₁ ih₂ | computedMemberTarget _ _ ih₁ ih₂
  | arrayTarget _ _ ih₁ ih₂ | targetWithDefault _ _ ih₁ ih₂ | targetShorthand _ _ ih₁ ih₂
  | targetProperty _ _ ih₁ ih₂ =>
      obtain ⟨h₁, h₂⟩ := forall_two h
      exact forall_mem_two (here _ h) (ih₁ h₁) (ih₂ h₂)
  | forIn _ _ _ ih₁ ih₂ ih₃ | forOf _ _ _ ih₁ ih₂ ih₃ | ifElse _ _ _ ih₁ ih₂ ih₃
  | tryFinally _ _ _ ih₁ ih₂ ih₃ | functionDeclaration _ _ _ _ _ ih₁ ih₂ ih₃
  | classDeclaration _ _ _ ih₁ ih₂ ih₃ | method _ _ _ _ _ ih₁ ih₂ ih₃ | setter _ _ _ ih₁ ih₂ ih₃
  | classExpression _ _ _ ih₁ ih₂ ih₃ | conditional _ _ _ ih₁ ih₂ ih₃
  | functionExpression _ _ _ _ _ ih₁ ih₂ ih₃ =>
      obtain ⟨h₁, h₂, h₃⟩ := forall_three h
      exact forall_mem_three (here _ h) (ih₁ h₁) (ih₂ h₂) (ih₃ h₃)
  | forLoop _ _ _ _ ih₁ ih₂ ih₃ ih₄ | switchWithDefault _ _ _ _ ih₁ ih₂ ih₃ ih₄ =>
      obtain ⟨h₁, h₂, h₃, h₄⟩ := forall_four h
      exact forall_mem_four (here _ h) (ih₁ h₁) (ih₂ h₂) (ih₃ h₃) (ih₄ h₄)
  | _ => exact here _ h

@[elab_as_elim]
theorem list_induction {c : Category} {p : Node (.list c) → Prop} (nil : p nil)
    (cons : ∀ head tail, p tail → p (cons head tail)) : ∀ items, p items
  | .nil => nil
  | .cons head tail => cons head tail (list_induction nil cons tail)

end Node

end EcmaScribe
