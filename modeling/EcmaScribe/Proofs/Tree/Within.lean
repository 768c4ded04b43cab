/-
# EcmaScribe.Proofs.Tree.Within -- where a part of a tree is written

What the parts of a tree tell may come with a place, the fragment that the part is turned into.
`Node.contains_of_mem_collect` finds these places in the fragment of the whole tree: no rule for
a tree leaves out what a child is turned into, but for two names that are written in another way
(`Node.Placed`).
-/
import EcmaScribe.Proofs.Fragment.Within
import EcmaScribe.Proofs.Tree.Collect

namespace EcmaScribe

set_option autoImplicit false

open Fragment

/-- The place stands within the output of a tree. -/
@[reducible] def Category.Contains (p : Fragment) : (c : Category) → c.Output → Prop
  | .list c, fs => ∃ f ∈ fs, c.Contains p f
  | .option c, f => ∃ g ∈ f, c.Contains p g
  | .templatePart, piece => ∃ f, .code f = piece ∧ Within p f
  | .program, f | .directive, f | .moduleItem, f | .importSpecifier, f | .exportDeclaration, f
  | .exportFromSpecifier, f | .exportLocalSpecifier, f | .exportDefaultBody, f
  | .statement, f | .block, f | .loopBinding, f | .loopInit, f | .switchCase, f
  | .switchDefault, f | .catchClause, f | .variableDeclaration, f | .declarator, f
  | .functionDeclaration, f | .classDeclaration, f | .parameters, f | .functionBody, f
  | .arrowBody, f | .classElement, f | .method, f | .expression, f | .subject, f | .argument, f
  | .property, f | .propertyName, f | .boundName, f | .usedName, f | .assignedName, f
  | .binding, f | .parameter, f | .bindingProperty, f | .target, f | .simpleTarget, f
  | .targetElement, f | .targetProperty, f => Within p f

namespace Node

/-- What trees tell comes with places.  Nothing is told of the name of a default export that has
none, nor of the parameter that an arrow function writes without parentheses. -/
structure Placed {α : Type} (own : {c : Category} → Node c → List α) (place : α → Fragment) :
    Prop where
  here : ∀ {c : Category} (n : Node c), ∀ x ∈ own n, c.Contains (place x) n.fragment
  written : ∀ {c : Category} (n : Node c), ∀ x ∈ own n, (place x).isBlank = false
  unnamed : own (.boundName defaultExportName) = []
  bare : ∀ params name, soleName? params = Option.some name → params.collect own = []

variable {α : Type} {own : {c : Category} → Node c → List α} {place : α → Fragment}

/-- What holds of all that a node tells of itself holds of what a tree tells. -/
theorem forall_mem_collect_own {p : α → Prop}
    (here : ∀ {c : Category} (n : Node c), ∀ x ∈ own n, p x) {c : Category} (n : Node c) :
    ∀ x ∈ n.collect own, p x := by
  have admitted : ∀ l ∈ n.leaves, (fun _ : Leaf => True) l := fun _ _ => trivial
  exact forall_mem_collect (fun m _ => here m) n admitted

/-- The place of what a child tells is written. -/
theorem Placed.written_of_mem (placed : Placed own place) {c : Category} (n : Node c) :
    ∀ x ∈ n.collect own, (place x).isBlank = false :=
  forall_mem_collect_own placed.written n

theorem Placed.declaredName (placed : Placed own place) {name : Node .boundName}
    (ih : ∀ x ∈ name.collect own, Within (place x) name.fragment) :
    ∀ x ∈ name.collect own, ∃ f ∈ declaredName name name.fragment, Within (place x) f := by
  cases name with
  | boundName text =>
      intro x member
      by_cases unnamed : text = defaultExportName
      · have none : (boundName text).collect own = [] := unnamed ▸ placed.unnamed
        rw [none] at member
        cases member
      · exact ⟨_, if_neg unnamed, ih x member⟩

theorem Placed.arrowParameters (placed : Placed own place) {params : Node .parameters}
    (ih : ∀ x ∈ params.collect own, Within (place x) params.fragment) :
    ∀ x ∈ params.collect own, Within (place x) (arrowParameters params params.fragment) := by
  intro x member
  unfold Fragment.arrowParameters
  split
  · rename_i name sole
    rw [placed.bare params name sole] at member
    cases member
  · exact ih x member

/-! ## Optional operands -/

/-- An optional operand at the level that its place asks for. -/
def writtenAt (level : Precedence) : Node (.option .expression) → Option Fragment
  | none => Option.none
  | some n => Option.some (Fragment.atLeast level n n.fragment)

theorem exists_writtenAt (level : Precedence) {n : Node (.option .expression)} {p : Fragment}
    (h : ∃ f ∈ n.fragment, Within p f) : ∃ f ∈ writtenAt level n, Within p f := by
  cases n with
  | none => exact h
  | some n =>
      obtain ⟨f, member, inside⟩ := h
      cases member
      exact ⟨_, rfl, inside.atLeast _ _⟩

theorem fragment_classDeclaration (name : Node .boundName) (heritage : Node (.option .expression))
    (elements : Node (.list .classElement)) :
    (classDeclaration name heritage elements).fragment =
      class_ (Fragment.declaredName name name.fragment) (writtenAt .new heritage)
        elements.fragment := by
  cases heritage <;> rfl

theorem fragment_classExpression (name : Node (.option .boundName))
    (heritage : Node (.option .expression)) (elements : Node (.list .classElement)) :
    (classExpression name heritage elements).fragment =
      .marked .startsWithFunctionOrClass
        (class_ name.fragment (writtenAt .new heritage) elements.fragment) := by
  cases heritage <;> rfl

theorem fragment_template (tag : Node (.option .expression)) (parts : Node (.list .templatePart)) :
    (template tag parts).fragment = Fragment.template (writtenAt .call tag) parts.fragment := by
  cases tag <;> rfl

/-- A name or pattern with its default value, if there is one. -/
def initialized (f : Fragment) : Node (.option .expression) → Fragment
  | none => f
  | some init => defaulted f init init.fragment

theorem within_initialized {f p : Fragment} (h : Within p f) (init : Node (.option .expression)) :
    Within p (initialized f init) := by
  cases init with
  | none => exact h
  | some init => exact h.target init

theorem within_initialValue {init : Node (.option .expression)} {p : Fragment}
    (h : ∃ g ∈ init.fragment, Within p g) (f : Fragment) : Within p (initialized f init) := by
  cases init with
  | none =>
      obtain ⟨g, member, -⟩ := h
      cases member
  | some init =>
      obtain ⟨g, member, inside⟩ := h
      cases member
      exact inside.value init

theorem fragment_declarator (binding : Node .binding) (init : Node (.option .expression)) :
    (declarator binding init).fragment = initialized binding.fragment init := by
  cases init <;> rfl

theorem fragment_bindingShorthand (name : Node .boundName) (init : Node (.option .expression)) :
    (bindingShorthand name init).fragment = initialized name.fragment init := by
  cases init <;> rfl

theorem fragment_targetShorthand (name : Node .assignedName) (init : Node (.option .expression)) :
    (targetShorthand name init).fragment = initialized name.fragment init := by
  cases init <;> rfl

/-! ## All trees -/

/-- **The place of what a part tells** stands within the fragment of the whole tree. -/
theorem contains_of_mem_collect (placed : Placed own place) {c : Category} (n : Node c) :
    ∀ x ∈ n.collect own, c.Contains (place x) n.fragment := by
  -- What a node tells of itself stands there by assumption.  For a child the place is taken up,
  -- step by step, into the phrase that the node is turned into.
  have here := @placed.here
  induction n with
  -- sequences and optional children
  | cons head tail ihHead ihTail =>
      refine forall_mem_two (here _) (fun x m => ⟨_, List.mem_cons_self, ihHead x m⟩) fun x m => ?_
      obtain ⟨f, member, inside⟩ := ihTail x m
      exact ⟨f, List.mem_cons_of_mem _ member, inside⟩
  | some child ih => exact forall_mem_one (here _) fun x m => ⟨_, rfl, ih x m⟩
  -- programs and modules
  | script directives items ihDirectives ihItems
  | moduleRoot directives items ihDirectives ihItems =>
      refine forall_mem_two (here _) (fun x m => ?_) fun x m => ?_
      · obtain ⟨f, member, inside⟩ := ihDirectives x m
        exact .lines (List.mem_append_left _ member) inside
      · obtain ⟨f, member, inside⟩ := ihItems x m
        exact .lines (List.mem_append_right _ member) inside
  | importNames default named specifier ihDefault ihNamed =>
      refine forall_mem_two (here _) (fun x m => ?_) fun x m => ?_
      · obtain ⟨f, member, inside⟩ := ihDefault x m
        exact .importedDefault member inside
      · obtain ⟨f, member, inside⟩ := ihNamed x m
        exact .importedName member inside
  | importNamespace default space specifier ihDefault ihSpace =>
      refine forall_mem_two (here _) (fun x m => ?_) fun x m => .importedSpace (ihSpace x m)
      obtain ⟨f, member, inside⟩ := ihDefault x m
      exact .importedBesideSpace member inside
  | exported _ ih | exportDefault _ ih =>
      exact forall_mem_one (here _) fun x m => .spaced (by simp) (ih x m)
  | exportFrom named _ ih | exportLocals named ih =>
      refine forall_mem_one (here _) fun x m => ?_
      obtain ⟨f, member, inside⟩ := ih x m
      have names : Within (place x) (.brace (.commaSep named.fragment)) :=
        .brace (.commaSep member inside)
      exact .statement (.spaced (by simp) names)
  | itemStatement _ ih | exportFunction _ ih | exportClass _ ih | defaultFunction _ ih
  | defaultClass _ ih | blockStatement _ ih | functionStatement _ ih | classStatement _ ih
  | loopVariables _ ih | loopTarget _ ih | initVariables _ ih | arrowBlock _ ih | identifier _ ih
  | subject _ ih | shorthand _ ih | methodProperty _ ih | bindingName _ ih | parameter _ ih
  | targetName _ ih | simpleTarget _ ih | targetElement _ ih => exact forall_mem_one (here _) ih
  | importSpecifier name binding ih =>
      exact forall_mem_one (here _) fun x m => .renamedTo _ (ih x m)
  | exportVariables declaration ih | declare declaration ih =>
      exact forall_mem_one (here _) fun x m => (ih x m).statement
  | exportLocalSpecifier name outer ih =>
      cases outer with
      | none => exact forall_mem_one (here _) ih
      | some outer => exact forall_mem_one (here _) fun x m => (ih x m).renamedFrom
  | defaultExpression expression ih =>
      exact forall_mem_one (here _) fun x m => (((ih x m).atLeast _ _).parenIf _).statement
  -- statements
  | doWhile body test ihBody ihTest =>
      exact forall_mem_two (here _) (fun x m => .statement (.spaced (by simp) (ihBody x m)))
        fun x m => .statement (.spaced (by simp) (ihTest x m).paren)
  | evaluate expression ih =>
      exact forall_mem_one (here _) fun x m => ((ih x m).parenIf _).statement
  | forIn left right body ihLeft ihRight ihBody =>
      exact forall_mem_three (here _) (fun x m => ((ihLeft x m).parenIf _).headLeft)
        (fun x m => (ihRight x m).headRight) fun x m => (ihBody x m).loopBody
  | forOf left right body ihLeft ihRight ihBody =>
      exact forall_mem_three (here _) (fun x m => ((ihLeft x m).parenIf _).headLeft)
        (fun x m => ((ihRight x m).atLeast _ _).headRight) fun x m => (ihBody x m).loopBody
  | labeled label body ih => exact forall_mem_one (here _) fun x m => (ih x m).keyedValue
  | throw value ih =>
      exact forall_mem_one (here _) fun x m => .statement (.spaced (by simp) (ih x m))
  | whileLoop test body ihTest ihBody | withObject test body ihTest ihBody =>
      exact forall_mem_two (here _) (fun x m => .spaced (by simp) (ihTest x m).paren)
        fun x m => .spaced (by simp) (ihBody x m)
  | forLoop init test advance body ihInit ihTest ihAdvance ihBody =>
      refine forall_mem_four (here _) (fun x m => ?_) (fun x m => ?_) (fun x m => ?_)
        fun x m => (ihBody x m).loopBody
      · obtain ⟨f, member, inside⟩ := ihInit x m
        refine inside.noIn.loopClause ?_
        rw [Option.mem_def.1 member]
        exact List.mem_cons_self
      · obtain ⟨f, member, inside⟩ := ihTest x m
        exact inside.loopClause (by simp [Option.mem_def.1 member])
      · obtain ⟨f, member, inside⟩ := ihAdvance x m
        exact inside.loopClause (by simp [Option.mem_def.1 member])
  | ifElse test consequent alternate ihTest ihConsequent ihAlternate =>
      cases alternate with
      | none =>
          refine forall_mem_three (here _) (fun x m => ?_) (fun x m => ?_) fun x m => ?_
          · exact .marked _ (.spaced (by simp) (ihTest x m).paren)
          · exact .marked _ (.spaced (by simp) (ihConsequent x m))
          · obtain ⟨f, member, -⟩ := ihAlternate x m
            cases member
      | some alternate =>
          show ∀ x ∈ _, Within (place x) (Fragment.spaced [token "if", .paren test.fragment,
            if consequent.fragment.missingElse then Fragment.block [consequent.fragment]
            else consequent.fragment, token "else", alternate.fragment])
          refine forall_mem_three (here _) (fun x m => ?_) (fun x m => ?_) fun x m => ?_
          · exact .spaced (by simp) (ihTest x m).paren
          · have embraced : Within (place x) (if consequent.fragment.missingElse then
                Fragment.block [consequent.fragment] else consequent.fragment) := by
              split
              · exact .block List.mem_cons_self (ihConsequent x m) (placed.written_of_mem _ x m)
              · exact ihConsequent x m
            exact .spaced (by simp) embraced
          · obtain ⟨f, member, inside⟩ := ihAlternate x m
            cases member
            exact .spaced (by simp) inside
  | returnValue value ih =>
      refine forall_mem_one (here _) fun x m => ?_
      obtain ⟨f, member, inside⟩ := ih x m
      exact .statement (.spaced (by simp [Option.mem_def.1 member]) inside)
  | switch discriminant cases ihDiscriminant ihCases =>
      refine forall_mem_two (here _) (fun x m => .spaced (by simp) (ihDiscriminant x m).paren)
        fun x m => ?_
      obtain ⟨f, member, inside⟩ := ihCases x m
      have braces : Within (place x) (Fragment.block cases.fragment) :=
        .block member inside (placed.written_of_mem _ x m)
      exact .spaced (by simp) braces
  | switchWithDefault discriminant before default after ihDiscriminant ihBefore ihDefault ihAfter =>
      have braces {f : Fragment} {x : α} (inside : Within (place x) f)
          (written : (place x).isBlank = false)
          (member : f ∈ before.fragment ++ default.fragment :: after.fragment) :
          Within (place x) (switchWithDefault discriminant before default after).fragment := by
        have block : Within (place x) (Fragment.block
            (before.fragment ++ default.fragment :: after.fragment)) :=
          .block member inside written
        exact .spaced (by simp) block
      refine forall_mem_four (here _) (fun x m => .spaced (by simp) (ihDiscriminant x m).paren)
        (fun x m => ?_) (fun x m => ?_) fun x m => ?_
      · obtain ⟨f, member, inside⟩ := ihBefore x m
        exact braces inside (placed.written_of_mem _ x m) (by simp [member])
      · exact braces (ihDefault x m) (placed.written_of_mem _ x m) (by simp)
      · obtain ⟨f, member, inside⟩ := ihAfter x m
        exact braces inside (placed.written_of_mem _ x m) (by simp [member])
  | tryCatch body handler ihBody ihHandler =>
      exact forall_mem_two (here _) (fun x m => .spaced (by simp) (ihBody x m))
        fun x m => .spaced (by simp) (ihHandler x m)
  | tryFinally body handler finalizer ihBody ihHandler ihFinalizer =>
      refine forall_mem_three (here _) (fun x m => .spaced (by simp) (ihBody x m)) (fun x m => ?_)
        fun x m => .spaced (by simp) (ihFinalizer x m)
      obtain ⟨f, member, inside⟩ := ihHandler x m
      exact .spaced (by simp [Option.mem_def.1 member]) inside
  -- parts of statements
  | block statements ih =>
      refine forall_mem_one (here _) fun x m => ?_
      obtain ⟨f, member, inside⟩ := ih x m
      exact .block member inside (placed.written_of_mem _ x m)
  | initExpression expression ih => exact forall_mem_one (here _) fun x m => (ih x m).parenIf _
  | switchCase test consequent ihTest ihConsequent =>
      refine forall_mem_two (here _) (fun x m => ?_) fun x m => ?_
      · have label : Within (place x) (Fragment.spaced [token "case", test.fragment]) :=
          .spaced (by simp) (ihTest x m)
        exact .seq (by simp) label
      · obtain ⟨f, member, inside⟩ := ihConsequent x m
        have lines : Within (place x) (.indent (.lines consequent.fragment)) :=
          .indent (.lines member inside)
        exact .seq (by simp) lines
  | switchDefault consequent ih =>
      refine forall_mem_one (here _) fun x m => ?_
      obtain ⟨f, member, inside⟩ := ih x m
      have lines : Within (place x) (.indent (.lines consequent.fragment)) :=
        .indent (.lines member inside)
      exact .seq (by simp) lines
  | catchClause binding body ihBinding ihBody =>
      exact forall_mem_two (here _) (fun x m => .spaced (by simp) (ihBinding x m).paren)
        fun x m => .spaced (by simp) (ihBody x m)
  | variableDeclaration kind declarators ih =>
      refine forall_mem_one (here _) fun x m => ?_
      obtain ⟨f, member, inside⟩ := ih x m
      have list : Within (place x) (.commaSep declarators.fragment) := .commaSep member inside
      exact .spaced (by simp) list
  | declarator binding init ihBinding ihInit =>
      refine forall_mem_two (here _) (fun x m => ?_) fun x m => ?_ <;> rw [fragment_declarator]
      · exact within_initialized (ihBinding x m) init
      · exact within_initialValue (ihInit x m) _
  -- functions and classes
  | functionDeclaration isAsync isGenerator name params body ihName ihParams ihBody =>
      refine forall_mem_three (here _) (fun x m => ?_) (fun x m => (ihParams x m).functionParams)
        fun x m => (ihBody x m).functionBody
      obtain ⟨f, member, inside⟩ := placed.declaredName ihName x m
      exact inside.functionName member
  | classDeclaration name heritage elements ihName ihHeritage ihElements =>
      refine forall_mem_three (here _) (fun x m => ?_) (fun x m => ?_) (fun x m => ?_) <;>
        rw [fragment_classDeclaration]
      · obtain ⟨f, member, inside⟩ := placed.declaredName ihName x m
        exact inside.className member
      · obtain ⟨f, member, inside⟩ := exists_writtenAt .new (ihHeritage x m)
        exact inside.classHeritage member
      · obtain ⟨f, member, inside⟩ := ihElements x m
        exact inside.classElements member (placed.written_of_mem _ x m)
  | parameters items rest ihItems ihRest =>
      refine forall_mem_two (here _) (fun x m => ?_) fun x m => ?_
      · obtain ⟨f, member, inside⟩ := ihItems x m
        exact inside.parameterItems member
      · obtain ⟨f, member, inside⟩ := ihRest x m
        exact inside.parameterRest member
  | functionBody directives statements ihDirectives ihStatements =>
      refine forall_mem_two (here _) (fun x m => ?_) fun x m => ?_
      · obtain ⟨f, member, inside⟩ := ihDirectives x m
        exact .block (List.mem_append_left _ member) inside (placed.written_of_mem _ x m)
      · obtain ⟨f, member, inside⟩ := ihStatements x m
        exact .block (List.mem_append_right _ member) inside (placed.written_of_mem _ x m)
  | arrowResult expression ih =>
      exact forall_mem_one (here _) fun x m => ((ih x m).atLeast _ _).parenIf _
  | classElement isStatic member ih =>
      cases isStatic with
      | true =>
          show ∀ x ∈ _, Within (place x) (Fragment.spaced [token "static", member.fragment])
          exact forall_mem_one (here _) fun x m => .spaced (by simp) (ih x m)
      | false => exact forall_mem_one (here _) ih
  | method isAsync isGenerator name params body ihName ihParams ihBody =>
      exact forall_mem_three (here _) (fun x m => (ihName x m).methodName)
        (fun x m => (ihParams x m).methodParams) fun x m => (ihBody x m).methodBody
  | getter name body ihName ihBody =>
      exact forall_mem_two (here _) (fun x m => (ihName x m).accessorName _)
        fun x m => (ihBody x m).accessorBody _
  | setter name param body ihName ihParam ihBody =>
      exact forall_mem_three (here _) (fun x m => (ihName x m).accessorName _)
        (fun x m => (ihParam x m).accessorParam _) fun x m => (ihBody x m).accessorBody _
  -- expressions
  | array elements ih =>
      refine forall_mem_one (here _) fun x m => ?_
      obtain ⟨item, member, f, written, inside⟩ := ih x m
      exact .bracket (.elements member written inside)
  | arrow isAsync params body ihParams ihBody =>
      refine forall_mem_two (here _) (fun x m => ?_) fun x m => ?_
      · have head : Within (place x) (Fragment.spaced [Fragment.arrowParameters params
            params.fragment, token "=>", body.fragment]) :=
          .spaced (by simp) (placed.arrowParameters ihParams x m)
        exact .seq (by simp) head
      · have head : Within (place x) (Fragment.spaced [Fragment.arrowParameters params
            params.fragment, token "=>", body.fragment]) := .spaced (by simp) (ihBody x m)
        exact .seq (by simp) head
  | assign target value ihTarget ihValue | bindingWithDefault target value ihTarget ihValue
  | targetWithDefault target value ihTarget ihValue =>
      exact forall_mem_two (here _) (fun x m => (ihTarget x m).target _)
        fun x m => (ihValue x m).value _
  | await operand ih =>
      exact forall_mem_one (here _) fun x m =>
        .spaced (by simp) ((ih x m).atLeast .prefixed operand)
  | binary left operator right ihLeft ihRight =>
      exact forall_mem_two (here _) (fun x m => (ihLeft x m).binaryLeft _ _ _)
        fun x m => (ihRight x m).binaryRight _ _ _
  | call callee arguments ihCallee ihArguments =>
      refine forall_mem_two (here _)
        (fun x m => .seq (by simp) ((ihCallee x m).parenIf (callee.precedence < .call)))
        fun x m => ?_
      obtain ⟨f, member, inside⟩ := ihArguments x m
      have list : Within (place x) (.paren (.commaSep arguments.fragment)) :=
        .paren (.commaSep member inside)
      exact .seq (by simp) list
  | classExpression name heritage elements ihName ihHeritage ihElements =>
      refine forall_mem_three (here _) (fun x m => ?_) (fun x m => ?_) (fun x m => ?_) <;>
        rw [fragment_classExpression]
      · obtain ⟨f, member, inside⟩ := ihName x m
        exact (inside.className member).marked _
      · obtain ⟨f, member, inside⟩ := exists_writtenAt .new (ihHeritage x m)
        exact (inside.classHeritage member).marked _
      · obtain ⟨f, member, inside⟩ := ihElements x m
        exact (inside.classElements member (placed.written_of_mem _ x m)).marked _
  | compoundAssign target operator value ihTarget ihValue =>
      exact forall_mem_two (here _) (fun x m => .spaced (by simp) (ihTarget x m))
        fun x m => .spaced (by simp) ((ihValue x m).atLeast .assignment value)
  | computedMember base key ihBase ihKey | computedMemberTarget base key ihBase ihKey =>
      exact forall_mem_two (here _) (fun x m => (ihBase x m).computedMember _)
        fun x m => (ihKey x m).computedKey _
  | conditional test consequent alternate ihTest ihConsequent ihAlternate =>
      exact forall_mem_three (here _)
        (fun x m => .spaced (by simp) ((ihTest x m).atLeast .logicalOr test))
        (fun x m => .spaced (by simp) ((ihConsequent x m).atLeast .assignment consequent))
        fun x m => .spaced (by simp) ((ihAlternate x m).atLeast .assignment alternate)
  | functionExpression isAsync isGenerator name params body ihName ihParams ihBody =>
      refine forall_mem_three (here _) (fun x m => ?_)
        (fun x m => (ihParams x m).functionParams.marked _)
        fun x m => (ihBody x m).functionBody.marked _
      obtain ⟨f, member, inside⟩ := ihName x m
      exact (inside.functionName member).marked _
  | new callee arguments ihCallee ihArguments =>
      have head {f : Fragment} {x : α} (inside : Within (place x) f) (condition : Bool) :
          Within (place x) (Fragment.spaced [token "new", Fragment.parenIf condition f]) :=
        .spaced (by simp) (inside.parenIf condition)
      cases arguments with
      | nil =>
          refine forall_mem_two (here _) (fun x m => head (ihCallee x m) _) fun x m => ?_
          obtain ⟨f, member, -⟩ := ihArguments x m
          cases member
      | cons first others =>
          refine forall_mem_two (here _) (fun x m => ?_) fun x m => ?_
          · exact .seq List.mem_cons_self (head (ihCallee x m) _)
          · obtain ⟨f, member, inside⟩ := ihArguments x m
            have list : Within (place x) (.paren (.commaSep (cons first others).fragment)) :=
              .paren (.commaSep member inside)
            exact .seq (by simp) list
  | object properties ih | objectBinding properties ih | objectTarget properties ih =>
      refine forall_mem_one (here _) fun x m => ?_
      obtain ⟨f, member, inside⟩ := ih x m
      exact inside.objectBraces member
  | staticMember base property ih | staticMemberTarget base property ih =>
      exact forall_mem_one (here _) fun x m => (ih x m).staticMember _ _
  | template tag parts ihTag ihParts =>
      refine forall_mem_two (here _) (fun x m => ?_) (fun x m => ?_) <;> rw [fragment_template]
      · obtain ⟨f, member, inside⟩ := exists_writtenAt .call (ihTag x m)
        exact inside.templateTag member
      · obtain ⟨piece, member, f, rfl, inside⟩ := ihParts x m
        exact inside.templateCode member
  | unary operator operand ih => exact forall_mem_one (here _) fun x m => (ih x m).unary _ _
  | update leading operator operand ih =>
      cases leading <;> exact forall_mem_one (here _) fun x m => .seq (by simp) (ih x m)
  | «yield» value ih =>
      cases value with
      | none =>
          refine forall_mem_one (here _) fun x m => ?_
          obtain ⟨f, member, -⟩ := ih x m
          cases member
      | some value =>
          refine forall_mem_one (here _) fun x m => ?_
          obtain ⟨f, member, inside⟩ := ih x m
          cases member
          exact .spaced (by simp) (inside.atLeast .assignment value)
  | yieldFrom source ih =>
      refine forall_mem_one (here _) fun x m => ?_
      have star : Within (place x) (Fragment.spaced [token "*",
        Fragment.atLeast .assignment source source.fragment]) :=
        .spaced (by simp) ((ih x m).atLeast .assignment source)
      exact .seq (by simp) star
  -- parts of expressions
  | spread expression ih => exact forall_mem_one (here _) fun x m => ((ih x m).atLeast _ _).rest
  | argument expression ih => exact forall_mem_one (here _) fun x m => (ih x m).atLeast _ _
  | substitution expression ih => exact forall_mem_one (here _) fun x m => ⟨_, rfl, ih x m⟩
  | dataProperty name value ihName ihValue =>
      exact forall_mem_two (here _) (fun x m => (ihName x m).key)
        fun x m => ((ihValue x m).atLeast _ _).keyedValue
  | computedName expression ih =>
      exact forall_mem_one (here _) fun x m => ((ih x m).atLeast _ _).bracket
  -- patterns
  | arrayBinding elements rest ihElements ihRest | arrayTarget elements rest ihElements ihRest =>
      refine forall_mem_two (here _) (fun x m => ?_) fun x m => ?_
      · obtain ⟨item, member, f, written, inside⟩ := ihElements x m
        exact inside.elementsOfPattern member written
      · obtain ⟨f, member, inside⟩ := ihRest x m
        exact inside.restOfPattern member
  | bindingShorthand name init ihName ihInit =>
      refine forall_mem_two (here _) (fun x m => ?_) (fun x m => ?_) <;>
        rw [fragment_bindingShorthand]
      · exact within_initialized (ihName x m) init
      · exact within_initialValue (ihInit x m) _
  | bindingProperty name item ihName ihItem | targetProperty name item ihName ihItem =>
      exact forall_mem_two (here _) (fun x m => (ihName x m).key) fun x m => (ihItem x m).keyedValue
  | targetShorthand name init ihName ihInit =>
      refine forall_mem_two (here _) (fun x m => ?_) (fun x m => ?_) <;>
        rw [fragment_targetShorthand]
      · exact within_initialized (ihName x m) init
      · exact within_initialValue (ihInit x m) _
  -- trees without children
  | _ => exact here _

end Node

end EcmaScribe
