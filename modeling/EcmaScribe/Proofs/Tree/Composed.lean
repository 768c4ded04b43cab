/-
# EcmaScribe.Proofs.Tree.Composed -- every tree is put together by the rules

`Node.composed` is the one induction over all trees: what a tree writes is composed, by the
rules of `Composed`, from the leaves of the tree.  A property of all scripts is then an
induction over the rules, of which there are few.
-/
import EcmaScribe.Proofs.Fragment.Composed
import EcmaScribe.Proofs.Tree.Collect

namespace EcmaScribe

set_option autoImplicit false

open Fragment

/-- What is proved of the output of a tree.  A name that introduces a variable is judged by
the tree that writes it. -/
def Category.Holds (admits : Leaf → Prop) : (c : Category) → c.Output → Prop
  | .list c, fs => ∀ f ∈ fs, c.Holds admits f
  | .option c, f => ∀ g ∈ f, c.Holds admits g
  | .templatePart, piece => ∀ f, .code f = piece → Operand admits f
  | .boundName, _ => True
  | .program, f | .method, f | .classElement, f | .property, f => Phrase admits f
  | .directive, f | .moduleItem, f | .importSpecifier, f | .exportDeclaration, f
  | .exportFromSpecifier, f | .exportLocalSpecifier, f | .exportDefaultBody, f
  | .statement, f | .block, f | .loopBinding, f | .loopInit, f | .switchCase, f
  | .switchDefault, f | .catchClause, f | .variableDeclaration, f | .declarator, f
  | .functionDeclaration, f | .classDeclaration, f | .parameters, f | .functionBody, f
  | .arrowBody, f | .expression, f | .subject, f | .argument, f | .propertyName, f
  | .usedName, f | .assignedName, f | .binding, f | .parameter, f | .bindingProperty, f
  | .target, f | .simpleTarget, f | .targetElement, f | .targetProperty, f => Operand admits f

namespace Node

variable {admits : Leaf → Prop}

/-! ## Names that introduce a variable -/

theorem operand_binding {name : Node .boundName} (admitted : admits (.ofBinding name)) :
    Operand admits name.fragment := by
  cases name
  exact operand_name admitted

theorem operand_declaredName {name : Node .boundName}
    (admitted : ∀ l ∈ Leaf.ofDeclared name, admits l) :
    ∀ f ∈ declaredName name name.fragment, Operand admits f := by
  cases name with
  | boundName text =>
      intro f written
      by_cases unnamed : text = defaultExportName
      · simp [declaredName, unnamed] at written
      · simp only [declaredName, unnamed, if_false, Option.mem_some_iff] at written
        subst written
        exact operand_name (admitted _ (by simp [Leaf.ofDeclared, unnamed]))

theorem operand_optionalBinding {name : Node (.option .boundName)}
    (admitted : ∀ l ∈ Leaf.ofOptional name, admits l) :
    ∀ f ∈ name.fragment, Operand admits f := by
  cases name with
  | none => intro f written; cases written
  | some name =>
      intro f written
      cases written
      exact operand_binding (admitted _ (by simp [Leaf.ofOptional]))

/-- The parameter list of which an arrow function writes the name alone. -/
theorem eq_of_soleName? {params : Node .parameters} {name : String}
    (h : soleName? params = Option.some name) :
    params = .parameters (.cons (.parameter (.bindingName (.boundName name))) .nil) .none := by
  cases params with
  | parameters items remainder =>
      cases items with
      | nil => cases h
      | cons head tail =>
          cases head with
          | bindingWithDefault binding init => cases h
          | parameter binding =>
              cases binding with
              | arrayBinding elements remainder => cases h
              | objectBinding properties => cases h
              | bindingName binding =>
                  cases binding
                  cases tail with
                  | cons next more => cases h
                  | nil =>
                      cases remainder with
                      | some last => cases h
                      | none => cases h; rfl

/-! ## Loop heads -/

theorem phrases {fs : List Fragment} (h : ∀ f ∈ fs, Operand admits f) :
    ∀ f ∈ fs, Phrase admits f := fun f member => (h f member).phrase

theorem phrases_clause {clause : Option Fragment} (h : ∀ f ∈ clause, Operand admits f) :
    ∀ f ∈ clause.toList.flatMap fun f => [Fragment.space, f], Phrase admits f := by
  cases clause with
  | none => simp
  | some f => simpa using ⟨phrase_space, (h f rfl).phrase⟩

/-- What stands in the head of a `for(;;)`. -/
theorem phrase_clauses {first : Fragment} {test advance : Option Fragment}
    (hFirst : Phrase admits first) (hTest : ∀ f ∈ test, Operand admits f)
    (hAdvance : ∀ f ∈ advance, Operand admits f) :
    Phrase admits (.seq (first :: token ";" :: test.toList.flatMap (fun f => [.space, f]) ++
      token ";" :: advance.toList.flatMap fun f => [.space, f])) := by
  have semicolon : Phrase admits (token ";") := (operand_token (by decide)).phrase
  exact phrase_seq (List.forall_mem_append.2
    ⟨List.forall_mem_cons.2 ⟨hFirst, List.forall_mem_cons.2 ⟨semicolon, phrases_clause hTest⟩⟩,
      List.forall_mem_cons.2 ⟨semicolon, phrases_clause hAdvance⟩⟩)

/-! ## All trees -/

/-- What a tree writes is composed from its leaves. -/
theorem composed {c : Category} (n : Node c) (h : ∀ l ∈ n.leaves, admits l) :
    c.Holds admits n.fragment := by
  induction n with
  -- sequences and optional children
  | nil => intro f member; cases member
  | cons head tail ihHead ihTail =>
      obtain ⟨hHead, hTail⟩ := forall_two h
      exact List.forall_mem_cons.2 ⟨ihHead hHead, ihTail hTail⟩
  | none => intro f member; cases member
  | some child ih =>
      intro f member
      cases member
      exact ih (forall_child h)
  -- names
  | boundName name => trivial
  | usedName name => exact operand_name (h _ (List.mem_singleton_self _))
  | assignedName name => exact operand_name (h _ (List.mem_singleton_self _))
  -- programs and modules
  | script directives statements ihDirectives ihStatements =>
      obtain ⟨hDirectives, hStatements⟩ := forall_two h
      exact phrase_lines (List.forall_mem_append.2
        ⟨phrases (ihDirectives hDirectives), phrases (ihStatements hStatements)⟩)
  | moduleRoot directives items ihDirectives ihItems =>
      obtain ⟨hDirectives, hItems⟩ := forall_two h
      exact phrase_lines (List.forall_mem_append.2
        ⟨phrases (ihDirectives hDirectives), phrases (ihItems hItems)⟩)
  | directive raw =>
      exact operand_statement (operand_leaf (h _ (List.mem_singleton_self _)) rfl)
  | importNames default named specifier ihDefault ihNamed =>
      have own := forall_own (forall_own h)
      exact operand_importNames (forall_child own _ (List.mem_singleton_self _))
        (operand_optionalBinding (forall_own own)) (ihNamed (forall_child h))
  | importNamespace default space specifier ihDefault ihSpace =>
      obtain ⟨names, rest⟩ := List.forall_mem_append.1 (forall_own (forall_own h))
      obtain ⟨bound, source⟩ := List.forall_mem_cons.1 rest
      exact operand_importNamespace (source _ (List.mem_singleton_self _))
        (operand_optionalBinding names) (operand_binding bound)
  | exported declaration ih =>
      exact operand_keyword (by decide) (by
        simpa using (ih (forall_child h)).phrase)
  | exportAll specifier => exact operand_exportAll (h _ (List.mem_singleton_self _))
  | exportFrom named specifier ihNamed =>
      have listed := operand_brace (phrase_commaSep (phrases (ihNamed (forall_child h))))
      refine operand_statement (operand_keyword (by decide) ?_)
      exact List.forall_mem_cons.2
        ⟨listed.phrase, phrase_fromClause (forall_own h _ (List.mem_singleton_self _))⟩
  | exportLocals named ihNamed =>
      have listed := operand_brace (phrase_commaSep (phrases (ihNamed (forall_child h))))
      exact operand_statement
        (operand_keyword (by decide) (by simpa using listed.phrase))
  | exportDefault body ih =>
      exact operand_keyword (by decide) (by
        simpa using ⟨(operand_token (by decide)).phrase, (ih (forall_child h)).phrase⟩)
  | itemStatement item ih => exact ih (forall_child h)
  | importSpecifier name binding ih =>
      obtain ⟨names, bound⟩ := List.forall_mem_append.1 (forall_own h)
      refine operand_renamed ?_ (operand_binding (bound _ (List.mem_singleton_self _)))
      intro f written
      obtain ⟨text, rfl, rfl⟩ := Option.map_eq_some_iff.1 written
      exact operand_name (names _ (List.mem_singleton_self _))
  | exportFunction declaration ih => exact ih (forall_child h)
  | exportClass declaration ih => exact ih (forall_child h)
  | exportVariables declaration ih => exact operand_statement (ih (forall_child h))
  | exportFromSpecifier name outer =>
      obtain ⟨inner, rest⟩ := List.forall_mem_cons.1 h
      cases outer with
      | none => exact operand_name inner
      | some outer =>
          refine operand_renamed ?_ (operand_name (rest _ (List.mem_singleton_self _)))
          intro f written
          cases written
          exact operand_name inner
  | exportLocalSpecifier name outer ih =>
      have inner := ih (forall_child h)
      cases outer with
      | none => exact inner
      | some outer =>
          refine operand_renamed ?_ (operand_name (forall_own h _ (List.mem_singleton_self _)))
          intro f written
          cases written
          exact inner
  | defaultFunction declaration ih => exact ih (forall_child h)
  | defaultClass declaration ih => exact ih (forall_child h)
  | defaultExpression expression ih =>
      exact operand_statement (operand_parenIf (operand_atLeast (ih (forall_child h))))
  -- statements
  | blockStatement body ih => exact ih (forall_child h)
  | breakTo label =>
      refine operand_statement (operand_keyword (by decide) ?_)
      intro f written
      obtain ⟨text, given, rfl⟩ := List.mem_map.1 written
      exact (operand_name (h _ (List.mem_map_of_mem given))).phrase
  | continueTo label =>
      refine operand_statement (operand_keyword (by decide) ?_)
      intro f written
      obtain ⟨text, given, rfl⟩ := List.mem_map.1 written
      exact (operand_name (h _ (List.mem_map_of_mem given))).phrase
  | debugger => exact operand_statement (operand_token (by decide))
  | doWhile body test ihBody ihTest =>
      obtain ⟨hBody, hTest⟩ := forall_two h
      exact operand_statement (operand_keyword (by decide) (by
        simpa using ⟨(ihBody hBody).phrase, (operand_token (by decide)).phrase,
          (operand_paren (ihTest hTest).phrase).phrase⟩))
  | empty => exact operand_semicolon
  | evaluate expression ih => exact operand_statement (operand_parenIf (ih (forall_child h)))
  | forIn left right body ihLeft ihRight ihBody =>
      obtain ⟨hLeft, hRight, hBody⟩ := forall_three h
      have head : Operand admits (.paren (spaced
          [parenIf left.fragment.leading.startsWithLetBracket left.fragment, token "in",
            right.fragment])) := fun b => by
        simpa using ((operand_parenIf (ihLeft hLeft) false).isIn (ihRight hRight false)).operand.paren
      exact operand_keyword (by decide) (by
        simpa using ⟨head.phrase, (ihBody hBody).phrase⟩)
  | forOf left right body ihLeft ihRight ihBody =>
      obtain ⟨hLeft, hRight, hBody⟩ := forall_three h
      have head : Operand admits (spaced
          [parenIf left.fragment.leading.startsWithLet left.fragment, token "of",
            atLeast .assignment right right.fragment]) :=
        operand_spaced (operand_parenIf (ihLeft hLeft)) (by
          simpa using ⟨(operand_token (by decide)).phrase,
            (operand_atLeast (ihRight hRight)).phrase⟩)
      exact operand_headed (by decide) head.phrase (ihBody hBody).phrase
  | forLoop init test advance body ihInit ihTest ihAdvance ihBody =>
      obtain ⟨hInit, hTest, hAdvance, hBody⟩ := forall_four h
      have loop {first : Fragment} (hFirst : Phrase admits first) : Operand admits
          (spaced [token "for",
            .paren (.seq (first :: token ";" :: test.fragment.toList.flatMap (fun f => [.space, f]) ++
              token ";" :: advance.fragment.toList.flatMap fun f => [.space, f])),
            body.fragment]) :=
        operand_headed (by decide)
          (phrase_clauses hFirst (ihTest hTest) (ihAdvance hAdvance)) (ihBody hBody).phrase
      cases init with
      | none => exact loop phrase_empty
      | some init => exact loop (operand_noIn (ihInit hInit _ rfl)).phrase
  | ifElse test consequent alternate ihTest ihConsequent ihAlternate =>
      obtain ⟨hTest, hConsequent, hAlternate⟩ := forall_three h
      have body := ihConsequent hConsequent
      cases alternate with
      | none =>
          exact operand_marked (operand_headed (by decide) (ihTest hTest).phrase body.phrase)
      | some alternate =>
          have braced : Operand admits (if consequent.fragment.missingElse then
              Fragment.block [consequent.fragment] else consequent.fragment) := by
            split
            · exact operand_block (by simpa using body.phrase)
            · exact body
          exact operand_keyword (by decide) (by
            simpa using ⟨(operand_paren (ihTest hTest).phrase).phrase, braced.phrase,
              (operand_token (by decide)).phrase, (ihAlternate hAlternate _ rfl).phrase⟩)
  | labeled label body ih =>
      exact operand_keyed (operand_name (forall_own h _ (List.mem_singleton_self _)))
        (ih (forall_child h)).phrase
  | returnValue value ih =>
      refine operand_statement (operand_keyword (by decide) ?_)
      exact fun f member => (ih (forall_child h) f (by simpa using member)).phrase
  | switch discriminant cases ihDiscriminant ihCases =>
      obtain ⟨hDiscriminant, hCases⟩ := forall_two h
      have body := operand_block (phrases (ihCases hCases))
      exact operand_headed (by decide) (ihDiscriminant hDiscriminant).phrase body.phrase
  | switchWithDefault discriminant before default after ihDiscriminant ihBefore ihDefault ihAfter =>
      obtain ⟨hDiscriminant, hBefore, hDefault, hAfter⟩ := forall_four h
      have body := operand_block (List.forall_mem_append.2 ⟨phrases (ihBefore hBefore),
        List.forall_mem_cons.2 ⟨(ihDefault hDefault).phrase, phrases (ihAfter hAfter)⟩⟩)
      exact operand_headed (by decide) (ihDiscriminant hDiscriminant).phrase body.phrase
  | throw value ih =>
      exact operand_statement (operand_keyword (by decide) (by
        simpa using (ih (forall_child h)).phrase))
  | tryCatch body handler ihBody ihHandler =>
      obtain ⟨hBody, hHandler⟩ := forall_two h
      exact operand_keyword (by decide) (by
        simpa using ⟨(ihBody hBody).phrase, (ihHandler hHandler).phrase⟩)
  | tryFinally body handler finalizer ihBody ihHandler ihFinalizer =>
      obtain ⟨hBody, hHandler, hFinalizer⟩ := forall_three h
      have last : ∀ f ∈ [token "finally", finalizer.fragment], Phrase admits f := by
        simpa using ⟨(operand_token (by decide)).phrase, (ihFinalizer hFinalizer).phrase⟩
      cases handler with
      | none =>
          exact operand_keyword (by decide)
            (List.forall_mem_cons.2 ⟨(ihBody hBody).phrase, last⟩)
      | some handler =>
          exact operand_keyword (by decide) (List.forall_mem_cons.2
            ⟨(ihBody hBody).phrase, List.forall_mem_cons.2
              ⟨(ihHandler hHandler _ rfl).phrase, last⟩⟩)
  | declare declaration ih => exact operand_statement (ih (forall_child h))
  | whileLoop test body ihTest ihBody =>
      obtain ⟨hTest, hBody⟩ := forall_two h
      exact operand_headed (by decide) (ihTest hTest).phrase (ihBody hBody).phrase
  | withObject scope body ihScope ihBody =>
      obtain ⟨hScope, hBody⟩ := forall_two h
      exact operand_headed (by decide) (ihScope hScope).phrase (ihBody hBody).phrase
  | functionStatement declaration ih => exact ih (forall_child h)
  | classStatement declaration ih => exact ih (forall_child h)
  -- parts of statements
  | block statements ih => exact operand_block (phrases (ih (forall_child h)))
  | loopVariables declaration ih => exact ih (forall_child h)
  | loopTarget target ih => exact ih (forall_child h)
  | initVariables declaration ih => exact ih (forall_child h)
  | initExpression expression ih => exact operand_parenIf (ih (forall_child h))
  | switchCase test consequent ihTest ihConsequent =>
      obtain ⟨hTest, hConsequent⟩ := forall_two h
      have label : Operand admits (spaced [token "case", test.fragment]) :=
        operand_keyword (by decide) (by simpa using (ihTest hTest).phrase)
      exact operand_seq label (by
        simpa using ⟨(operand_token (by decide)).phrase,
          phrase_indent (phrase_lines (phrases (ihConsequent hConsequent)))⟩)
  | switchDefault consequent ih =>
      exact operand_seq (operand_token (by decide)) (by
        simpa using ⟨(operand_token (by decide)).phrase,
          phrase_indent (phrase_lines (phrases (ih (forall_child h))))⟩)
  | catchClause binding body ihBinding ihBody =>
      obtain ⟨hBinding, hBody⟩ := forall_two h
      exact operand_headed (by decide) (ihBinding hBinding).phrase (ihBody hBody).phrase
  | variableDeclaration kind declarators ih =>
      have listed := phrase_commaSep (phrases (ih (forall_child h)))
      exact operand_spaced (operand_token (by cases kind <;> decide)) (by simpa using listed)
  | declarator binding init ihBinding ihInit =>
      obtain ⟨hBinding, hInit⟩ := forall_two h
      cases init with
      | none => exact ihBinding hBinding
      | some init => exact operand_defaulted (ihBinding hBinding) (ihInit hInit _ rfl)
  -- functions and classes
  | functionDeclaration isAsync isGenerator name params body ihName ihParams ihBody =>
      obtain ⟨-, hParams, hBody⟩ := forall_three h
      exact operand_function (operand_declaredName (forall_own (forall_own (forall_own h))))
        (ihParams hParams) (ihBody hBody).phrase
  | classDeclaration name heritage elements ihName ihHeritage ihElements =>
      obtain ⟨-, hHeritage, hElements⟩ := forall_three h
      have named := operand_declaredName (forall_own (forall_own (forall_own h)))
      cases heritage with
      | none => exact operand_class named (by simp) (ihElements hElements)
      | some heritage =>
          refine operand_class named ?_ (ihElements hElements)
          intro f written
          cases written
          exact operand_atLeast (ihHeritage hHeritage _ rfl)
  | parameters items remainder ihItems ihRest =>
      obtain ⟨hItems, hRest⟩ := forall_two h
      exact operand_parameterList (ihItems hItems) (ihRest hRest)
  | functionBody directives statements ihDirectives ihStatements =>
      obtain ⟨hDirectives, hStatements⟩ := forall_two h
      exact operand_block (List.forall_mem_append.2
        ⟨phrases (ihDirectives hDirectives), phrases (ihStatements hStatements)⟩)
  | arrowBlock body ih => exact ih (forall_child h)
  | arrowResult expression ih =>
      exact operand_parenIf (operand_atLeast (ih (forall_child h)))
  | classElement isStatic member ih =>
      have written : Phrase admits member.fragment := ih (forall_child h)
      cases isStatic with
      | false => exact written
      | true =>
          exact (operand_keyword (by decide) (by simpa using written)).phrase
  | method isAsync isGenerator name params body ihName ihParams ihBody =>
      obtain ⟨hName, hParams, hBody⟩ := forall_three h
      exact phrase_method (ihName hName) (ihParams hParams).phrase (ihBody hBody).phrase
  | getter name body ihName ihBody =>
      obtain ⟨hName, hBody⟩ := forall_two h
      exact (operand_accessor (by decide) (ihName hName) phrase_empty (ihBody hBody).phrase).phrase
  | setter name param body ihName ihParam ihBody =>
      obtain ⟨hName, hParam, hBody⟩ := forall_three h
      exact (operand_accessor (by decide) (ihName hName) (ihParam hParam).phrase
        (ihBody hBody).phrase).phrase
  -- expressions
  | array elements ih =>
      refine operand_bracket (phrase_elements fun item member f written => ?_)
      exact (ih (forall_child h) item member f written).phrase
  | arrow isAsync params body ihParams ihBody =>
      obtain ⟨hParams, hBody⟩ := forall_two h
      have written : Operand admits (arrowParameters params params.fragment) := by
        unfold arrowParameters
        split
        · rename_i name sole
          rw [eq_of_soleName? sole] at hParams
          exact operand_name (hParams _ (List.mem_cons_self ..))
        · exact ihParams hParams
      exact operand_asyncHead (operand_infixed (by decide) written (ihBody hBody)) (by simp)
  | assign target value ihTarget ihValue =>
      obtain ⟨hTarget, hValue⟩ := forall_two h
      exact operand_defaulted (ihTarget hTarget) (ihValue hValue)
  | await operand ih =>
      exact operand_keyword (by decide) (by
        simpa using (operand_atLeast (ih (forall_child h))).phrase)
  | binary left operator right ihLeft ihRight =>
      obtain ⟨hLeft, hRight⟩ := forall_two h
      exact operand_binary (ihLeft hLeft) (ihRight hRight)
  | call callee arguments ihCallee ihArguments =>
      obtain ⟨hCallee, hArguments⟩ := forall_two h
      exact operand_seq (operand_parenIf (ihCallee hCallee)) (by
        simpa using (operand_paren (phrase_commaSep (phrases (ihArguments hArguments)))).phrase)
  | classExpression name heritage elements ihName ihHeritage ihElements =>
      obtain ⟨-, hHeritage, hElements⟩ := forall_three h
      have named := operand_optionalBinding (forall_own (forall_own (forall_own h)))
      cases heritage with
      | none => exact operand_marked (operand_class named (by simp) (ihElements hElements))
      | some heritage =>
          refine operand_marked (operand_class named ?_ (ihElements hElements))
          intro f written
          cases written
          exact operand_atLeast (ihHeritage hHeritage _ rfl)
  | compoundAssign target operator value ihTarget ihValue =>
      obtain ⟨hTarget, hValue⟩ := forall_two h
      exact operand_infixed (by cases operator <;> decide) (ihTarget hTarget)
        (operand_atLeast (ihValue hValue))
  | computedMember base key ihBase ihKey =>
      obtain ⟨hBase, hKey⟩ := forall_two h
      exact operand_computedMember (ihBase hBase) (ihKey hKey).phrase
  | conditional test consequent alternate ihTest ihConsequent ihAlternate =>
      obtain ⟨hTest, hConsequent, hAlternate⟩ := forall_three h
      exact operand_spaced (operand_atLeast (ihTest hTest)) (by
        simpa using ⟨(operand_token (by decide)).phrase,
          (operand_atLeast (ihConsequent hConsequent)).phrase, (operand_token (by decide)).phrase,
          (operand_atLeast (ihAlternate hAlternate)).phrase⟩)
  | functionExpression isAsync isGenerator name params body ihName ihParams ihBody =>
      obtain ⟨-, hParams, hBody⟩ := forall_three h
      exact operand_marked
        (operand_function (operand_optionalBinding (forall_own (forall_own (forall_own h))))
          (ihParams hParams) (ihBody hBody).phrase)
  | identifier name ih => exact ih (forall_child h)
  | boolean value => exact operand_token (by cases value <;> decide)
  | infinity =>
      intro b
      show Composed admits .operand b ((Fragment.lexeme _).lexemes b)
      simpa using Composed.infinity
  | null => exact operand_token (by decide)
  | number value => exact operand_leaf (h _ (List.mem_singleton_self _)) rfl
  | regExp pattern flags => exact operand_leaf (h _ (List.mem_singleton_self _)) rfl
  | string value => exact operand_leaf (h _ (List.mem_singleton_self _)) rfl
  | new callee arguments ihCallee ihArguments =>
      obtain ⟨hCallee, hArguments⟩ := forall_two h
      have head : Operand admits (spaced [token "new",
          parenIf (callee.hasCallOnLeftSpine || callee.precedence < .member) callee.fragment]) :=
        operand_keyword (by decide) (by
          simpa using (operand_parenIf (ihCallee hCallee)).phrase)
      cases arguments with
      | nil => exact head
      | cons first more =>
          exact operand_seq head (by
            simpa using (operand_paren (phrase_commaSep (phrases (ihArguments hArguments)))).phrase)
  | newTarget =>
      intro b
      show Composed admits .operand b
        ((seq [token "new", token ".", token "target"]).lexemes b)
      simpa using Composed.newTarget
  | object properties ih => exact operand_objectBraces (ih (forall_child h))
  | staticMember base property ih =>
      exact operand_staticMember (forall_own h _ (List.mem_singleton_self _)) (ih (forall_child h))
  | template tag parts ihTag ihParts =>
      obtain ⟨hTag, hParts⟩ := forall_two h
      have admitted := forall_own (forall_own h) _ (List.mem_singleton_self _)
      have pieces : ∀ f, .code f ∈ parts.fragment → Operand admits f :=
        fun f member => ihParts hParts _ member f rfl
      cases tag with
      | none => exact operand_template admitted (by simp) pieces
      | some tag =>
          refine operand_template admitted ?_ pieces
          intro f written
          cases written
          exact operand_atLeast (ihTag hTag _ rfl)
  | thisValue => exact operand_token (by decide)
  | unary operator operand ih => exact operand_unary (ih (forall_child h))
  | update leading operator operand ih =>
      have written := ih (forall_child h)
      have sign : Operand admits (token operator.text) :=
        operand_token (by cases operator <;> decide)
      cases leading with
      | true => exact operand_seq sign (by simpa using written.phrase)
      | false => exact operand_seq written (by simpa using sign.phrase)
  | «yield» value ih =>
      cases value with
      | none => exact operand_token (by decide)
      | some value =>
          exact operand_keyword (by decide) (by
            simpa using (operand_atLeast (ih (forall_child h) _ rfl)).phrase)
  | yieldFrom source ih =>
      have starred : Phrase admits
          (spaced [token "*", atLeast .assignment source source.fragment]) := fun b => by
        simpa using (operand_atLeast (ih (forall_child h)) b).starred
      exact operand_seq (operand_token (by decide)) (by simpa using starred)
  -- parts of expressions
  | superObject => exact operand_token (by decide)
  | subject expression ih => exact ih (forall_child h)
  | spread expression ih => exact operand_rest (operand_atLeast (ih (forall_child h)))
  | argument expression ih => exact operand_atLeast (ih (forall_child h))
  | chunk raw => intro f written; cases written
  | substitution expression ih =>
      intro f written
      cases written
      exact ih (forall_child h)
  | dataProperty name value ihName ihValue =>
      obtain ⟨hName, hValue⟩ := forall_two h
      exact (operand_keyed (ihName hName) (operand_atLeast (ihValue hValue)).phrase).phrase
  | shorthand name ih => exact (ih (forall_child h)).phrase
  | methodProperty member ih => exact ih (forall_child h)
  | staticName value =>
      show Operand admits (propertyKey value)
      rw [propertyKey_eq value rfl]
      exact operand_leaf (h _ (List.mem_singleton_self _)) rfl
  | computedName expression ih =>
      exact operand_bracket (operand_atLeast (ih (forall_child h))).phrase
  -- binding patterns
  | bindingName name => exact operand_binding (forall_own h _ (List.mem_singleton_self _))
  | arrayBinding elements remainder ihElements ihRest =>
      obtain ⟨hElements, hRest⟩ := forall_two h
      exact operand_arrayPattern (ihElements hElements) (ihRest hRest)
  | objectBinding properties ih => exact operand_objectBraces (phrases (ih (forall_child h)))
  | bindingWithDefault binding init ihBinding ihInit =>
      obtain ⟨hBinding, hInit⟩ := forall_two h
      exact operand_defaulted (ihBinding hBinding) (ihInit hInit)
  | parameter binding ih => exact ih (forall_child h)
  | bindingShorthand name init ihName ihInit =>
      have bound := operand_binding (forall_own (forall_own h) _ (List.mem_singleton_self _))
      cases init with
      | none => exact bound
      | some init => exact operand_defaulted bound (ihInit (forall_child h) _ rfl)
  | bindingProperty name binding ihName ihBinding =>
      obtain ⟨hName, hBinding⟩ := forall_two h
      exact operand_keyed (ihName hName) (ihBinding hBinding).phrase
  -- assignment targets
  | targetName name ih => exact ih (forall_child h)
  | staticMemberTarget base property ih =>
      exact operand_staticMember (forall_own h _ (List.mem_singleton_self _)) (ih (forall_child h))
  | computedMemberTarget base key ihBase ihKey =>
      obtain ⟨hBase, hKey⟩ := forall_two h
      exact operand_computedMember (ihBase hBase) (ihKey hKey).phrase
  | arrayTarget elements remainder ihElements ihRest =>
      obtain ⟨hElements, hRest⟩ := forall_two h
      exact operand_arrayPattern (ihElements hElements) (ihRest hRest)
  | objectTarget properties ih => exact operand_objectBraces (phrases (ih (forall_child h)))
  | simpleTarget target ih => exact ih (forall_child h)
  | targetWithDefault target init ihTarget ihInit =>
      obtain ⟨hTarget, hInit⟩ := forall_two h
      exact operand_defaulted (ihTarget hTarget) (ihInit hInit)
  | targetElement target ih => exact ih (forall_child h)
  | targetShorthand name init ihName ihInit =>
      obtain ⟨hName, hInit⟩ := forall_two h
      cases init with
      | none => exact ihName hName
      | some init => exact operand_defaulted (ihName hName) (ihInit hInit _ rfl)
  | targetProperty name target ihName ihTarget =>
      obtain ⟨hName, hTarget⟩ := forall_two h
      exact operand_keyed (ihName hName) (ihTarget hTarget).phrase

end Node

end EcmaScribe
