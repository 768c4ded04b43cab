/-
# EcmaScribe.Proofs.Tree.LineEnds -- which trees stand on lines of their own

A line of readable output is a directive, a module item, a statement, a case or a class element.
Each of these ends in a semicolon, in the brace of a block, or in what it has taken over from a
statement at its end (`Node.breaksWell`); a case without statements ends in its colon.  All other
trees break lines within blocks only.
-/
import EcmaScribe.Proofs.Fragment.LineEnds
import EcmaScribe.Proofs.Tree.Composed
import EcmaScribe.Proofs.Tree.Within

namespace EcmaScribe

set_option autoImplicit false

open Fragment

/-- What is proved of the output of a tree. -/
def Category.BreaksWell : (c : Category) → c.Output → Prop
  | .list c, fs => ∀ f ∈ fs, c.BreaksWell f
  | .option c, f => ∀ g ∈ f, c.BreaksWell g
  | .templatePart, piece => ∀ f, .code f = piece → Calm f
  | .directive, f | .moduleItem, f | .exportDeclaration, f | .exportDefaultBody, f | .statement, f
  | .block, f | .switchCase, f | .switchDefault, f | .catchClause, f | .functionDeclaration, f
  | .classDeclaration, f | .functionBody, f | .classElement, f | .method, f => IsLine f
  | .program, f | .importSpecifier, f | .exportFromSpecifier, f | .exportLocalSpecifier, f
  | .loopBinding, f | .loopInit, f | .variableDeclaration, f | .declarator, f | .parameters, f
  | .arrowBody, f | .expression, f | .subject, f | .argument, f | .property, f | .propertyName, f
  | .boundName, f | .usedName, f | .assignedName, f | .binding, f | .parameter, f
  | .bindingProperty, f | .target, f | .simpleTarget, f | .targetElement, f
  | .targetProperty, f => Calm f

namespace Node

/-! ## Phrases of trees -/

theorem calm_declaredName {name : Node .boundName} (h : Calm name.fragment) :
    ∀ f ∈ declaredName name name.fragment, Calm f := by
  cases name with
  | boundName text =>
      intro f written
      by_cases unnamed : text = defaultExportName
      · simp [declaredName, unnamed] at written
      · simp only [declaredName, unnamed, if_false, Option.mem_some_iff] at written
        subst written
        exact h

theorem calm_writtenAt {level : Precedence} {n : Node (.option .expression)}
    (h : ∀ f ∈ n.fragment, Calm f) : ∀ f ∈ writtenAt level n, Calm f := by
  cases n with
  | none => intro f written; cases written
  | some n =>
      intro f written
      cases written
      exact calm_atLeast _ _ (h _ rfl)

theorem calm_initialized {f : Fragment} (h : Calm f) {init : Node (.option .expression)}
    (hInit : ∀ g ∈ init.fragment, Calm g) : Calm (initialized f init) := by
  cases init with
  | none => exact h
  | some init => exact calm_defaulted _ h (hInit _ rfl)

theorem calm_arrowParameters {params : Node .parameters} (h : Calm params.fragment) :
    Calm (arrowParameters params params.fragment) := by
  unfold arrowParameters
  split
  · exact calm_lexeme _
  · exact h

theorem calm_clause {clause : Option Fragment} (h : ∀ f ∈ clause, Calm f) :
    ∀ f ∈ clause.toList.flatMap fun f => [Fragment.space, f], Calm f := by
  cases clause with
  | none => simp
  | some f => simpa using ⟨calm_space, h f rfl⟩

/-- A keyword and an optional label. -/
theorem isLine_jump (word : String) (label : Option String) :
    IsLine (statement (spaced (token word ::
      label.toList.map fun l => .lexeme (.name .label l)))) := by
  refine isLine_statement (calm_spaced (List.forall_mem_cons.2 ⟨calm_token _, ?_⟩))
  cases label with
  | none => simp
  | some label => simpa using calm_lexeme _

/-- The head of a loop or of a `with`, and the statement that it governs. -/
theorem isLine_headed (word : String) {head body : Fragment} (hHead : Calm head)
    (hBody : IsLine body) : IsLine (spaced [token word, .paren head, body]) :=
  .spaced (by simpa using ⟨calm_token word, calm_paren hHead, hBody.calm⟩) rfl hBody

/-! ## All trees -/

/-- **A line ends after each statement** and each tree like it; other trees break lines only within
their blocks. -/
theorem breaksWell {c : Category} (n : Node c) : c.BreaksWell n.fragment := by
  induction n with
  -- sequences and optional children
  | nil => exact List.forall_mem_nil _
  | cons head tail ihHead ihTail => exact List.forall_mem_cons.2 ⟨ihHead, ihTail⟩
  | none => intro f written; cases written
  | some child ih =>
      intro f written
      cases written
      exact ih
  -- programs and modules
  | script directives items ihDirectives ihItems | moduleRoot directives items ihDirectives ihItems =>
      exact calm_lines (List.forall_mem_append.2 ⟨ihDirectives, ihItems⟩)
  | directive raw => exact isLine_statement (calm_lexeme _)
  | importNames default named specifier ihDefault ihNamed =>
      exact isLine_importNames specifier ihDefault ihNamed
  | importNamespace default space specifier ihDefault ihSpace =>
      exact isLine_importNamespace specifier ihDefault ihSpace
  | exported declaration ih =>
      exact .spaced (by simpa using ⟨calm_token "export", ih.calm⟩) rfl ih
  | exportAll specifier =>
      exact isLine_statement (calm_spaced (List.forall_mem_cons.2 ⟨calm_token _,
        List.forall_mem_cons.2 ⟨calm_token _, calm_fromClause specifier⟩⟩))
  | exportFrom named specifier ih =>
      exact isLine_statement (calm_spaced (List.forall_mem_cons.2 ⟨calm_token _,
        List.forall_mem_cons.2 ⟨calm_brace (calm_commaSep ih), calm_fromClause specifier⟩⟩))
  | exportLocals named ih => exact isLine_statement (calm_prefixed _ (calm_brace (calm_commaSep ih)))
  | exportDefault body ih =>
      exact .spaced (by simpa using ⟨calm_token "export", calm_token "default", ih.calm⟩) rfl ih
  | importSpecifier name binding ih =>
      cases name with
      | none => exact ih
      | some name => exact calm_infixed "as" (calm_lexeme _) ih
  | exportFromSpecifier name outer =>
      cases outer with
      | none => exact calm_lexeme _
      | some outer => exact calm_infixed "as" (calm_lexeme _) (calm_lexeme _)
  | exportLocalSpecifier name outer ih =>
      cases outer with
      | none => exact ih
      | some outer => exact calm_infixed "as" ih (calm_lexeme _)
  | defaultExpression expression ih =>
      exact isLine_statement (calm_parenIf _ (calm_atLeast _ _ ih))
  -- statements
  | breakTo label | continueTo label => exact isLine_jump _ label
  | debugger => exact isLine_statement (calm_token _)
  | doWhile body test ihBody ihTest =>
      exact isLine_statement (calm_spaced
        (by simpa using ⟨calm_token "do", ihBody.calm, calm_token "while", calm_paren ihTest⟩))
  | empty => exact isLine_semicolon
  | evaluate expression ih => exact isLine_statement (calm_parenIf _ ih)
  | forIn left right body ihLeft ihRight ihBody =>
      exact isLine_headed "for" (calm_infixed "in" (calm_parenIf _ ihLeft) ihRight) ihBody
  | forOf left right body ihLeft ihRight ihBody =>
      exact isLine_headed "for"
        (calm_infixed "of" (calm_parenIf _ ihLeft) (calm_atLeast _ _ ihRight)) ihBody
  | forLoop init test advance body ihInit ihTest ihAdvance ihBody =>
      have headed {first : Fragment} (h : Calm first) : IsLine (spaced [token "for",
          .paren (.seq (first :: token ";" :: test.fragment.toList.flatMap (fun f => [.space, f]) ++
            token ";" :: advance.fragment.toList.flatMap fun f => [.space, f])), body.fragment]) :=
        isLine_headed "for" (calm_seq (List.forall_mem_append.2
          ⟨List.forall_mem_cons.2 ⟨h, List.forall_mem_cons.2 ⟨calm_token _, calm_clause ihTest⟩⟩,
            List.forall_mem_cons.2 ⟨calm_token _, calm_clause ihAdvance⟩⟩)) ihBody
      cases init with
      | none => exact headed calm_empty
      | some init => exact headed (calm_noIn (ihInit _ rfl))
  | ifElse test consequent alternate ihTest ihConsequent ihAlternate =>
      cases alternate with
      | none => exact .marked _ (isLine_headed "if" ihTest ihConsequent)
      | some alternate =>
          have last : IsLine alternate.fragment := ihAlternate _ rfl
          have embraced : Calm (if consequent.fragment.missingElse then
              Fragment.block [consequent.fragment] else consequent.fragment) := by
            split
            · exact (isLine_block (List.forall_mem_singleton.2 ihConsequent)).calm
            · exact ihConsequent.calm
          show IsLine (Fragment.spaced [token "if", .paren test.fragment,
            if consequent.fragment.missingElse then Fragment.block [consequent.fragment]
            else consequent.fragment, token "else", alternate.fragment])
          exact .spaced (by simpa using
            ⟨calm_token "if", calm_paren ihTest, embraced, calm_token "else", last.calm⟩) rfl last
  | labeled label body ih =>
      exact ih.keyed (calm_lexeme _)
  | returnValue value ih =>
      refine isLine_statement (calm_spaced (List.forall_mem_cons.2 ⟨calm_token _, ?_⟩))
      exact fun f member => ih f (Option.mem_toList.1 member)
  | switch discriminant cases ihDiscriminant ihCases =>
      exact isLine_headed "switch" ihDiscriminant (isLine_block ihCases)
  | switchWithDefault discriminant before default after ihDiscriminant ihBefore ihDefault ihAfter =>
      exact isLine_headed "switch" ihDiscriminant (isLine_block
        (List.forall_mem_append.2 ⟨ihBefore, List.forall_mem_cons.2 ⟨ihDefault, ihAfter⟩⟩))
  | throw value ih => exact isLine_statement (calm_prefixed _ ih)
  | tryCatch body handler ihBody ihHandler =>
      exact .spaced (by simpa using ⟨calm_token "try", ihBody.calm, ihHandler.calm⟩) rfl ihHandler
  | tryFinally body handler finalizer ihBody ihHandler ihFinalizer =>
      have handled : ∀ f ∈ handler.fragment.toList, Calm f := fun f member =>
        (ihHandler f (Option.mem_toList.1 member)).calm
      have opened : ∀ f ∈ token "try" :: body.fragment :: handler.fragment.toList, Calm f :=
        List.forall_mem_cons.2 ⟨calm_token _, List.forall_mem_cons.2 ⟨ihBody.calm, handled⟩⟩
      exact .spaced (List.forall_mem_append.2
        ⟨opened, by simpa using ⟨calm_token "finally", ihFinalizer.calm⟩⟩)
        ((List.getLast?_append_cons ..).trans rfl) ihFinalizer
  | declare declaration ih | exportVariables declaration ih => exact isLine_statement ih
  | whileLoop test body ihTest ihBody | withObject test body ihTest ihBody =>
      exact isLine_headed _ ihTest ihBody
  -- parts of statements
  | block statements ih => exact isLine_block ih
  | initExpression expression ih => exact calm_parenIf _ ih
  | switchCase test consequent ihTest ihConsequent =>
      exact isLine_case (calm_prefixed "case" ihTest) ihConsequent
  | switchDefault consequent ih => exact isLine_case (calm_token _) ih
  | catchClause binding body ihBinding ihBody => exact isLine_headed "catch" ihBinding ihBody
  | variableDeclaration kind declarators ih => exact calm_prefixed _ (calm_commaSep ih)
  | declarator binding init ihBinding ihInit =>
      rw [fragment_declarator]
      exact calm_initialized ihBinding ihInit
  -- functions and classes
  | functionDeclaration isAsync isGenerator name params body ihName ihParams ihBody =>
      exact isLine_function (calm_declaredName ihName) ihParams ihBody
  | classDeclaration name heritage elements ihName ihHeritage ihElements =>
      rw [fragment_classDeclaration]
      exact isLine_class (calm_declaredName ihName) (calm_writtenAt ihHeritage) ihElements
  | parameters items remainder ihItems ihRest => exact calm_parameterList ihItems ihRest
  | functionBody directives statements ihDirectives ihStatements =>
      exact isLine_block (List.forall_mem_append.2 ⟨ihDirectives, ihStatements⟩)
  | arrowBlock body ih => exact ih.calm
  | arrowResult expression ih => exact calm_parenIf _ (calm_atLeast _ _ ih)
  | classElement isStatic member ih =>
      cases isStatic with
      | true =>
          show IsLine (Fragment.spaced [token "static", member.fragment])
          exact .spaced (by simpa using ⟨calm_token "static", ih.calm⟩) rfl ih
      | false => exact ih
  | method isAsync isGenerator name params body ihName ihParams ihBody =>
      exact isLine_method ihName ihParams ihBody
  | getter name body ihName ihBody => exact isLine_accessor "get" ihName calm_empty ihBody
  | setter name param body ihName ihParam ihBody =>
      exact isLine_accessor "set" ihName ihParam ihBody
  -- expressions
  | array elements ih => exact calm_bracket (calm_elements ih)
  | arrow isAsync params body ihParams ihBody =>
      have arrow := calm_infixed "=>" (calm_arrowParameters ihParams) ihBody
      exact calm_seq (List.forall_mem_append.2
        ⟨calm_asyncHead isAsync, List.forall_mem_singleton.2 arrow⟩)
  | assign target value ihTarget ihValue | bindingWithDefault target value ihTarget ihValue
  | targetWithDefault target value ihTarget ihValue => exact calm_defaulted _ ihTarget ihValue
  | await operand ih => exact calm_prefixed _ (calm_atLeast _ _ ih)
  | binary left operator right ihLeft ihRight => exact calm_binary _ _ _ ihLeft ihRight
  | call callee arguments ihCallee ihArguments =>
      exact calm_seq (List.forall_mem_cons.2 ⟨calm_parenIf _ ihCallee,
        List.forall_mem_singleton.2 (calm_paren (calm_commaSep ihArguments))⟩)
  | classExpression name heritage elements ihName ihHeritage ihElements =>
      rw [fragment_classExpression]
      exact calm_marked _ (isLine_class ihName (calm_writtenAt ihHeritage) ihElements).calm
  | compoundAssign target operator value ihTarget ihValue =>
      exact calm_infixed _ ihTarget (calm_atLeast _ _ ihValue)
  | computedMember base key ihBase ihKey | computedMemberTarget base key ihBase ihKey =>
      exact calm_computedMember _ ihBase ihKey
  | conditional test consequent alternate ihTest ihConsequent ihAlternate =>
      exact calm_spaced (by simpa using ⟨calm_atLeast .logicalOr test ihTest, calm_token "?",
        calm_atLeast .assignment consequent ihConsequent, calm_token ":",
        calm_atLeast .assignment alternate ihAlternate⟩)
  | functionExpression isAsync isGenerator name params body ihName ihParams ihBody =>
      exact calm_marked _ (isLine_function ihName ihParams ihBody).calm
  | boolean value => exact calm_token _
  | infinity | null | number | regExp | string | thisValue | superObject | boundName | usedName
  | assignedName => exact calm_lexeme _
  | new callee arguments ihCallee ihArguments =>
      have head := calm_prefixed "new"
        (calm_parenIf (callee.hasCallOnLeftSpine || callee.precedence < .member) ihCallee)
      cases arguments with
      | nil => exact head
      | cons first others =>
          exact calm_seq (List.forall_mem_cons.2
            ⟨head, List.forall_mem_singleton.2 (calm_paren (calm_commaSep ihArguments))⟩)
  | newTarget =>
      exact calm_seq (by simpa using ⟨calm_token "new", calm_token ".", calm_token "target"⟩)
  | object properties ih | objectBinding properties ih | objectTarget properties ih =>
      exact calm_objectBraces ih
  | staticMember base property ih | staticMemberTarget base property ih =>
      exact calm_staticMember _ _ ih
  | template tag parts ihTag ihParts =>
      rw [fragment_template]
      exact calm_template (calm_writtenAt ihTag) fun f member => ihParts _ member f rfl
  | unary operator operand ih => exact calm_unary _ _ ih
  | update leading operator operand ih =>
      cases leading with
      | true => exact calm_seq (by simpa using ⟨calm_token _, ih⟩)
      | false => exact calm_seq (by simpa using ⟨ih, calm_token _⟩)
  | «yield» value ih =>
      cases value with
      | none => exact calm_token _
      | some value => exact calm_prefixed _ (calm_atLeast _ _ (ih _ rfl))
  | yieldFrom source ih =>
      exact calm_seq (List.forall_mem_cons.2 ⟨calm_token _,
        List.forall_mem_singleton.2 (calm_prefixed _ (calm_atLeast _ _ ih))⟩)
  -- parts of expressions
  | spread expression ih => exact calm_rest (calm_atLeast _ _ ih)
  | argument expression ih => exact calm_atLeast _ _ ih
  | chunk raw => intro f written; cases written
  | substitution expression ih =>
      intro f written
      cases written
      exact ih
  | dataProperty name value ihName ihValue => exact calm_keyed ihName (calm_atLeast _ _ ihValue)
  | methodProperty member ih => exact ih.calm
  | staticName value => exact calm_propertyKey value
  | computedName expression ih => exact calm_bracket (calm_atLeast _ _ ih)
  -- binding patterns and assignment targets
  | arrayBinding elements remainder ihElements ihRest
  | arrayTarget elements remainder ihElements ihRest => exact calm_arrayPattern ihElements ihRest
  | bindingShorthand name init ihName ihInit =>
      rw [fragment_bindingShorthand]
      exact calm_initialized ihName ihInit
  | targetShorthand name init ihName ihInit =>
      rw [fragment_targetShorthand]
      exact calm_initialized ihName ihInit
  | bindingProperty name item ihName ihItem | targetProperty name item ihName ihItem =>
      exact calm_keyed ihName ihItem
  -- trees that are written as their only child
  | itemStatement _ ih | exportFunction _ ih | exportClass _ ih | defaultFunction _ ih
  | defaultClass _ ih | blockStatement _ ih | functionStatement _ ih | classStatement _ ih
  | loopVariables _ ih | loopTarget _ ih | initVariables _ ih | identifier _ ih | subject _ ih
  | shorthand _ ih | bindingName _ ih | parameter _ ih | targetName _ ih | simpleTarget _ ih
  | targetElement _ ih => exact ih

end Node

end EcmaScribe
