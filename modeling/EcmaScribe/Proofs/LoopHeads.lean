/-
# EcmaScribe.Proofs.LoopHeads -- where the head of a loop ends its parts

The first part of a `for(;;)` head ends at a `;`, and may hold no `in` outside brackets, since the
loop would be taken for one over keys.  The left side of a `for(in)` head ends at the first `in`
outside brackets.

* `initializer_of_mem_statements`: the first part is written under the restriction on a bare `in`,
  has none outside its brackets, and is written as anywhere else unless there was one to protect.
* `keys_of_mem_statements`: the left side of a loop over keys is written without the restriction.
  The first `in` outside brackets is the keyword of the statement if and only if the restriction
  would have changed nothing; among such loops, the parts can be told from what is written.
  `not_told_apart` is a loop whose initializer is cut in two.
-/
import EcmaScribe.Proofs.Tree.Code
import EcmaScribe.Proofs.Tree.Statements

namespace EcmaScribe

set_option autoImplicit false

open Fragment

variable {k : IdentifierClass}

/-! ## The head of a loop -/

namespace Node

/-- The first part of a `for(;;)` head. -/
theorem plain_loopInit {init : Node .loopInit} (tame : ∀ leaf ∈ init.leaves, leaf.Tame [";"]) :
    Fragment.Plain [";"] fun b => init.fragment.lexemes b := by
  cases init with
  | initVariables declaration => exact plain_variableDeclaration (by decide) (forall_child tame)
  | initExpression expression =>
      have code : Code (Leaf.Tame [";"]) [expression.fragment] :=
        expression.code (forall_child tame)
      have inner : Operand (Leaf.Tame [";"]) expression.fragment :=
        expression.composed (forall_child tame)
      have whole := code.parenIf expression.fragment.leading.startsWithLetBracket inner.phrase
      exact whole.plain_single (by decide)

/-- The left side of a loop over keys, as it is written. -/
def leftSide (left : Node .loopBinding) : Fragment :=
  parenIf left.fragment.leading.startsWithLetBracket left.fragment

theorem plain_leftSide {left : Node .loopBinding} (tame : ∀ leaf ∈ left.leaves, leaf.Tame [";"]) :
    Fragment.Plain [";"] fun b => left.leftSide.lexemes b := by
  have inner : Operand (Leaf.Tame [";"]) left.fragment := left.composed tame
  have plain : Fragment.Plain [";"] fun b => left.fragment.lexemes b := by
    cases left with
    | loopVariables declaration => exact plain_variableDeclaration (by decide) (forall_child tame)
    | loopTarget target =>
        have code : Code (Leaf.Tame [";"]) [target.fragment] := target.code (forall_child tame)
        exact code.plain_single (by decide)
  unfold leftSide parenIf
  split
  · have code : Code (Leaf.Tame [";"]) [.paren left.fragment] := .paren inner.phrase
    exact code.plain_single (by decide)
  · exact plain

theorem lexemes_forLoop (init : Node .loopInit) (test advance : Node (.option .expression))
    (body : Statement) (b : Bool) :
    ∃ rest, (forLoop (some init) test advance body).fragment.lexemes b =
      .verbatim "for" :: .verbatim "(" :: init.fragment.lexemes true ++ .verbatim ";" :: rest :=
  ⟨_, by
    show (spaced [token "for", .paren (.seq (.noIn init.fragment :: token ";" ::
      test.fragment.toList.flatMap (fun f => [.space, f]) ++ token ";" ::
      advance.fragment.toList.flatMap fun f => [.space, f])), body.fragment]).lexemes b = _
    simp only [lexemes_spaced, lexemes_token, List.flatMap_cons, lexemes_paren, lexemes_seq,
      List.cons_append, lexemes_noIn, List.append_assoc, List.nil_append]
    rfl⟩

theorem lexemes_forIn (left : Node .loopBinding) (right : Expression) (body : Statement)
    (b : Bool) : (forIn left right body).fragment.lexemes b =
      .verbatim "for" :: .verbatim "(" :: left.leftSide.lexemes false ++ .verbatim "in" ::
        right.fragment.lexemes false ++ .verbatim ")" :: body.fragment.lexemes b := by
  show (spaced [token "for", .paren (spaced [left.leftSide, token "in", right.fragment]),
    body.fragment]).lexemes b = _
  simp

/-- **No bare `in` in the head of a loop.**  The first part of a `for(;;)` head ends at the first
semicolon outside brackets, and every `in` in it stands within brackets.  It is written as
anywhere else unless there is an `in` to protect, and no parentheses protect it elsewhere. -/
theorem initializer_of_mem_statements {init : Node .loopInit}
    (names : ∀ leaf ∈ init.leaves, leaf.NamedBut k ["in"]) :
    (∀ (program : Program) (test advance : Node (.option .expression)) (body : Statement),
      forLoop (some init) test advance body ∈ program.statements → ∃ before rest,
        program.fragment.lexemes false = before ++ .verbatim "for" :: .verbatim "(" ::
          init.fragment.lexemes true ++ .verbatim ";" :: rest) ∧
    ExposesOnly (Lexeme.Avoids ["in", ";"]) (init.fragment.lexemes true) ∧
    (ExposesOnly (Lexeme.Avoids ["in"]) (init.fragment.lexemes false) →
      init.fragment.lexemes true = init.fragment.lexemes false) ∧
    ∀ f : Fragment, (containsIn f).steps false = f.steps false := by
  have plain := plain_loopInit fun leaf member => (names leaf member).tame (by simp) (by simp)
  refine ⟨fun program test advance body member => ?_, ?_, plain.unchanged, fun f => ?_⟩
  · obtain ⟨before, b, after, whole⟩ := exists_lexemes_of_mem_statements member
    obtain ⟨rest, loop⟩ := lexemes_forLoop init test advance body b
    exact ⟨before, rest ++ after, by rw [whole, loop]; simp⟩
  · refine (plain.restricted.and (plain.avoids true)).mono fun x avoids word reads member => ?_
    rcases List.mem_cons.1 member with rfl | semicolon
    · exact avoids.1 _ reads (List.mem_singleton_self _)
    · exact avoids.2 _ reads semicolon
  · rw [steps, if_neg Bool.false_ne_true]

/-- The expression `a in b`. -/
def membership : Expression :=
  .binary (.identifier (.usedName "a")) .isIn (.identifier (.usedName "b"))

/-- Declarations with `in` in a default value, in the body of an arrow function, in a condition,
in a template and in an array. -/
def membershipsInHead : Node .loopInit :=
  .initVariables (.variableDeclaration .var
    (.cons (.declarator
        (.objectBinding (.cons (.bindingShorthand (.boundName "x") (.some membership)) .nil))
        (.some (.arrow false (.parameters .nil .none) (.arrowResult membership))))
    (.cons (.declarator (.bindingName (.boundName "y"))
        (.some (.conditional membership
          (.template .none (.cons (.chunk "") (.cons (.substitution membership)
            (.cons (.chunk "") .nil))))
          (.array (.cons (.some (.argument membership)) .nil)))))
    .nil)))

/-- A single letter is a name other than `in`. -/
theorem namedBut_letter (role : NameRole) {c : Char} (letter : Text.startsIdentifier c = true) :
    (Leaf.name role (.ofList [c])).NamedBut .ofTables ["in"] where
  named := by simpa [Leaf.Named, IdentifierClass.isName, IdentifierClass.ofTables] using letter
  avoids l written word reads := by
    cases written
    cases reads
    rw [List.mem_singleton, ← String.toList_inj, String.toList_ofList]
    simp

theorem initializer_membershipsInHead :
    (∀ leaf ∈ membershipsInHead.leaves, leaf.NamedBut .ofTables ["in"]) ∧
    ExposesOnly (Lexeme.Avoids ["in", ";"]) (membershipsInHead.fragment.lexemes true) ∧
    membershipsInHead.fragment.lexemes true ≠ membershipsInHead.fragment.lexemes false := by
  have letter (role : NameRole) (c : Char) (h : Text.startsIdentifier c = true) :=
    namedBut_letter role h
  have names : ∀ leaf ∈ membershipsInHead.leaves, leaf.NamedBut .ofTables ["in"] := by
    have a := letter .used 'a' (by decide)
    have b := letter .used 'b' (by decide)
    show ∀ leaf ∈ [Leaf.name .bound "x", .name .used "a", .name .used "b", .name .used "a",
      .name .used "b", .name .bound "y", .name .used "a", .name .used "b",
      .template (.cons (.chunk "") (.cons (.substitution membership) (.cons (.chunk "") .nil))),
      .name .used "a", .name .used "b", .name .used "a", .name .used "b"], _
    simp only [List.forall_mem_cons]
    exact ⟨letter .bound 'x' (by decide), a, b, a, b, letter .bound 'y' (by decide), a, b,
      ⟨trivial, fun l written => by cases written⟩, a, b, a, b, by simp⟩
  exact ⟨names, (initializer_of_mem_statements names).2.1, by decide⟩

/-- **The head of a loop over keys.**  Its left side and its right side have matching brackets,
and the left side is written without the restriction on a bare `in`.  The first `in` outside
brackets is the keyword of the loop if and only if the restriction would change nothing.  Where it
is, the parts of the loop can be told from what is written. -/
theorem keys_of_mem_statements {left : Node .loopBinding} {right : Expression}
    (names : ∀ leaf ∈ left.leaves ++ right.leaves, leaf.NamedBut k ["in"]) :
    (∀ (program : Program) (body : Statement), forIn left right body ∈ program.statements →
      ∃ before rest, program.fragment.lexemes false = before ++ .verbatim "for" ::
        .verbatim "(" :: left.leftSide.lexemes false ++ .verbatim "in" ::
          right.fragment.lexemes false ++ .verbatim ")" :: rest) ∧
    Balanced (left.leftSide.lexemes false) ∧ Balanced (right.fragment.lexemes false) ∧
    (ExposesOnly (Lexeme.Avoids ["in"]) (left.leftSide.lexemes false) ↔
      left.leftSide.lexemes true = left.leftSide.lexemes false) ∧
    (ExposesOnly (Lexeme.Avoids ["in"]) (left.leftSide.lexemes false) →
      ∀ l r rest rest' : List Lexeme, ExposesOnly (Lexeme.Avoids ["in"]) l → Balanced r →
        left.leftSide.lexemes false ++ .verbatim "in" :: right.fragment.lexemes false ++
          .verbatim ")" :: rest = l ++ .verbatim "in" :: r ++ .verbatim ")" :: rest' →
        l = left.leftSide.lexemes false ∧ r = right.fragment.lexemes false) := by
  obtain ⟨hLeft, hRight⟩ := List.forall_mem_append.1 names
  have plainLeft := plain_leftSide fun leaf member => (hLeft leaf member).tame (by simp) (by simp)
  have code : Code (Leaf.Tame [";"]) [right.fragment] :=
    right.code fun leaf member => (hRight leaf member).tame (by simp) (by simp)
  have balancedRight := ((code.plain_single (by decide)).avoids false).balanced
  refine ⟨fun program body member => ?_, (plainLeft.avoids false).balanced, balancedRight,
    ⟨plainLeft.unchanged, fun same => same ▸ plainLeft.restricted⟩,
    fun bare l r rest rest' hl hr same => ?_⟩
  · obtain ⟨before, b, after, whole⟩ := exists_lexemes_of_mem_statements member
    exact ⟨before, body.fragment.lexemes b ++ after, by rw [whole, lexemes_forIn]; simp⟩
  · have noBracket : (Lexeme.verbatim "in").Avoids bracketTexts :=
      Lexeme.avoids_verbatim.2 (by decide)
    have keyword : ¬ (Lexeme.verbatim "in").Avoids ["in"] := by simp [Lexeme.avoids_verbatim]
    simp only [List.append_assoc, List.cons_append] at same
    obtain ⟨first, behind⟩ := append_cons_unique
      (fun _ m h => h.not_append_forbidden noBracket keyword m) bare hl same
    obtain ⟨second, -⟩ := append_cons_unique (p := Balanced)
      (fun _ m h => h.not_append_closing rfl m) balancedRight hr behind
    exact ⟨first.symm, second.symm⟩

/-- The left side `var x = value`. -/
def initializedName (value : Expression) : Node .loopBinding :=
  .loopVariables (.variableDeclaration .var
    (.cons (.declarator (.bindingName (.boundName "x")) (.some value)) .nil))

/-- The first `in` of `for(var x=a in b in c);` is not the one of the loop. -/
theorem keys_initializedName :
    (∀ leaf ∈ (initializedName membership).leaves ++ (usedName "c").leaves,
      leaf.NamedBut .ofTables ["in"]) ∧
    ¬ ExposesOnly (Lexeme.Avoids ["in"]) ((initializedName membership).leftSide.lexemes false) := by
  have names : ∀ leaf ∈ (initializedName membership).leaves ++
      (identifier (.usedName "c")).leaves, leaf.NamedBut .ofTables ["in"] := by
    have letter (role : NameRole) (c : Char) (h : Text.startsIdentifier c = true) :=
      namedBut_letter role h
    show ∀ leaf ∈ [Leaf.name .bound "x", .name .used "a", .name .used "b", .name .used "c"], _
    simp only [List.forall_mem_cons]
    exact ⟨letter .bound 'x' (by decide), letter .used 'a' (by decide),
      letter .used 'b' (by decide), letter .used 'c' (by decide), by simp⟩
  obtain ⟨-, -, -, first, -⟩ := keys_of_mem_statements names
  exact ⟨names, fun bare => absurd (first.1 bare) (by decide)⟩

/-- A script of one loop over keys, with an empty body. -/
def loopOverKeys (left : Node .loopBinding) (right : Expression) : Program :=
  .script .nil (.cons (.forIn left right .empty) .nil)

/-- Over the keys of `c`, with a variable that starts as `a in b`. -/
def loopFromMembership : Program :=
  loopOverKeys (initializedName membership) (.identifier (.usedName "c"))

/-- Over the keys of `b in c`, with a variable that starts as `a`. -/
def loopOverMembership : Program :=
  loopOverKeys (initializedName (.identifier (.usedName "a")))
    (.binary (.identifier (.usedName "b")) .isIn (.identifier (.usedName "c")))

/-- The two loops are one script. -/
theorem not_told_apart : loopFromMembership ≠ loopOverMembership ∧
    ∀ options, loopFromMembership.print options = loopOverMembership.print options := by
  refine ⟨nofun, fun options => ?_⟩
  have steps : loopFromMembership.fragment.steps false = loopOverMembership.fragment.steps false :=
    rfl
  have same (spelling : Spelling) (layout : Layout) :
      loopFromMembership.render spelling layout = loopOverMembership.render spelling layout := by
    simp only [render, Fragment.text, Fragment.tokens, steps]
  unfold print
  split <;> exact same _ _

end Node

end EcmaScribe
