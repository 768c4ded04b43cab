/-
# EcmaScribe.Proofs.Tree.Commas -- no tree but a sequence has commas of its own

Every comma that an expression, a target or a pattern writes stands within brackets or within a
substitution, unless the expression is a sequence (`Node.uncut`).  A sequence is the loosest of
all expressions, and each place in which an expression may be written asks for a higher level, up
to those within brackets.
-/
import EcmaScribe.Proofs.Fragment.Commas
import EcmaScribe.Proofs.Tree.Within
import EcmaScribe.Proofs.Tree.Composed

namespace EcmaScribe

set_option autoImplicit false

open Fragment

/-- What is proved of a tree; nothing of statements and of what stands only in brackets. -/
def Category.IsUncut : (c : Category) → Node c → Prop
  | .option c, n => ∀ m, n = .some m → c.IsUncut m
  | .expression, n => n.precedence ≠ .sequence → Uncut n.fragment
  | .subject, n => n.precedence ≠ .sequence → Uncut n.fragment
  | .parameters, n | .functionBody, n | .arrowBody, n | .argument, n | .usedName, n
  | .assignedName, n | .binding, n | .parameter, n | .target, n | .simpleTarget, n
  | .targetElement, n => Uncut n.fragment
  | _, _ => True

namespace Node

theorem uncut_binding {name : Node .boundName} (whole : (Leaf.ofBinding name).Whole) :
    Uncut name.fragment := by
  cases name
  exact uncut_leaf whole rfl

theorem uncut_optionalBinding {name : Node (.option .boundName)}
    (whole : ∀ leaf ∈ Leaf.ofOptional name, leaf.Whole) : ∀ f ∈ name.fragment, Uncut f := by
  cases name with
  | none => intro f written; cases written
  | some name =>
      intro f written
      cases written
      exact uncut_binding (whole _ (by simp [Leaf.ofOptional]))

theorem uncut_writtenAt {level : Precedence} (above : .sequence < level)
    {n : Node (.option .expression)} (h : Category.IsUncut (.option .expression) n)
    (inner : ∀ f ∈ n.fragment, Operand Leaf.Whole f) : ∀ f ∈ writtenAt level n, Uncut f := by
  cases n with
  | none => intro f written; cases written
  | some n =>
      intro f written
      cases written
      exact uncut_atLeast above (h n rfl) (inner _ rfl).phrase

/-- **Commas stand within brackets** or substitutions, but for those of a sequence. -/
theorem uncut {c : Category} (n : Node c) (h : ∀ leaf ∈ n.leaves, leaf.Whole) : c.IsUncut n := by
  induction n with
  -- optional children
  | none => intro m same; cases same
  | some child ih =>
      intro m same
      cases same
      exact ih (forall_child h)
  -- names
  | usedName name | assignedName name => exact uncut_leaf (h _ (List.mem_singleton_self _)) rfl
  -- functions
  | parameters items remainder =>
      obtain ⟨hItems, hRest⟩ := forall_two h
      exact uncut_paren (phrase_parameterItems (items.composed hItems) (remainder.composed hRest))
  | functionBody directives statements =>
      obtain ⟨hDirectives, hStatements⟩ := forall_two h
      exact uncut_block (List.forall_mem_append.2
        ⟨phrases (directives.composed hDirectives), phrases (statements.composed hStatements)⟩)
  | arrowBlock body ih => exact ih (forall_child h)
  | arrowResult expression ih =>
      have inner : Operand Leaf.Whole expression.fragment := expression.composed (forall_child h)
      exact uncut_parenIf _ (fun _ => uncut_atLeast (by decide) (ih (forall_child h)) inner.phrase)
        (operand_atLeast inner).phrase
  -- expressions
  | array elements =>
      exact fun _ => uncut_bracket (phrase_elements fun item member f hf =>
        (elements.composed (forall_child h) item member f hf).phrase)
  | arrow isAsync params body ihParams ihBody =>
      obtain ⟨hParams, hBody⟩ := forall_two h
      have head : Uncut (arrowParameters params params.fragment) := by
        unfold arrowParameters
        split
        · rename_i name sole
          obtain rfl := eq_of_soleName? sole
          exact uncut_leaf (hParams _ (List.mem_singleton_self _)) rfl
        · exact ihParams hParams
      exact fun _ => uncut_seq (List.forall_mem_append.2 ⟨uncut_asyncHead isAsync,
        List.forall_mem_singleton.2 (uncut_infixed (by decide) head (ihBody hBody))⟩)
  | assign target value ihTarget ihValue =>
      obtain ⟨hTarget, hValue⟩ := forall_two h
      have inner : Operand Leaf.Whole value.fragment := value.composed hValue
      exact fun _ => uncut_defaulted (ihTarget hTarget) (ihValue hValue) inner.phrase
  | await operand ih =>
      have inner : Operand Leaf.Whole operand.fragment := operand.composed (forall_child h)
      exact fun _ => uncut_prefixed (by decide)
        (uncut_atLeast (by decide) (ih (forall_child h)) inner.phrase)
  | binary left operator right ihLeft ihRight =>
      obtain ⟨hLeft, hRight⟩ := forall_two h
      have innerLeft : Operand Leaf.Whole left.fragment := left.composed hLeft
      have innerRight : Operand Leaf.Whole right.fragment := right.composed hRight
      refine fun tight => uncut_binary ?_ (ihLeft hLeft) (ihRight hRight) innerLeft.phrase
        innerRight.phrase
      rintro rfl
      exact tight rfl
  | call callee arguments ihCallee =>
      obtain ⟨hCallee, hArguments⟩ := forall_two h
      have inner : Operand Leaf.Whole callee.fragment := callee.composed hCallee
      have head : Uncut (parenIf (callee.precedence < .call) callee.fragment) :=
        uncut_parenIf _ (fun tight => ihCallee hCallee fun loosest => by
          rw [loosest] at tight
          cases tight) inner.phrase
      exact fun _ => uncut_seq (by simpa using
        ⟨head, uncut_paren (phrase_commaSep (phrases (arguments.composed hArguments)))⟩)
  | classExpression name heritage elements ihName ihHeritage =>
      obtain ⟨-, hHeritage, hElements⟩ := forall_three h
      intro _
      rw [fragment_classExpression]
      exact uncut_marked (uncut_class
        (uncut_optionalBinding (forall_own (forall_own (forall_own h))))
        (uncut_writtenAt (by decide) (ihHeritage hHeritage) (heritage.composed hHeritage))
        (elements.composed hElements))
  | compoundAssign target operator value ihTarget ihValue =>
      obtain ⟨hTarget, hValue⟩ := forall_two h
      have inner : Operand Leaf.Whole value.fragment := value.composed hValue
      exact fun _ => uncut_infixed (by cases operator <;> decide) (ihTarget hTarget)
        (uncut_atLeast (by decide) (ihValue hValue) inner.phrase)
  | computedMember base key ihBase =>
      obtain ⟨hBase, hKey⟩ := forall_two h
      have inner : Operand Leaf.Whole base.fragment := base.composed hBase
      have innerKey : Operand Leaf.Whole key.fragment := key.composed hKey
      exact fun _ => uncut_computedMember (ihBase hBase) inner.phrase innerKey.phrase
  | conditional test consequent alternate ihTest ihConsequent ihAlternate =>
      obtain ⟨hTest, hConsequent, hAlternate⟩ := forall_three h
      have innerTest : Operand Leaf.Whole test.fragment := test.composed hTest
      have innerConsequent : Operand Leaf.Whole consequent.fragment :=
        consequent.composed hConsequent
      have innerAlternate : Operand Leaf.Whole alternate.fragment := alternate.composed hAlternate
      exact fun _ => uncut_spaced (by simpa using
        ⟨uncut_atLeast (by decide) (ihTest hTest) innerTest.phrase, uncut_token (by decide),
          uncut_atLeast (by decide) (ihConsequent hConsequent) innerConsequent.phrase,
          uncut_token (by decide),
          uncut_atLeast (by decide) (ihAlternate hAlternate) innerAlternate.phrase⟩)
  | functionExpression isAsync isGenerator name params body ihName ihParams ihBody =>
      obtain ⟨-, hParams, hBody⟩ := forall_three h
      exact fun _ => uncut_marked (uncut_function
        (uncut_optionalBinding (forall_own (forall_own (forall_own h)))) (ihParams hParams)
        (ihBody hBody))
  | identifier name ih => exact fun _ => ih (forall_child h)
  | boolean value => exact fun _ => uncut_token (by cases value <;> decide)
  | infinity =>
      exact fun _ b => by
        show CommaFree ((Fragment.lexeme _).lexemes b)
        rw [lexemes_lexeme]
        exact .single (by simp [Lexeme.Avoids, Lexeme.word?]) (by simp)
  | null | thisValue | superObject => exact fun _ => uncut_token (by decide)
  | number | regExp | string =>
      exact fun _ => uncut_leaf (h _ (List.mem_singleton_self _)) rfl
  | new callee arguments ihCallee =>
      obtain ⟨hCallee, hArguments⟩ := forall_two h
      have inner : Operand Leaf.Whole callee.fragment := callee.composed hCallee
      have head : Uncut (spaced [token "new",
          parenIf (callee.hasCallOnLeftSpine || callee.precedence < .member) callee.fragment]) :=
        uncut_prefixed (by decide) (uncut_parenIf _ (fun tight => ihCallee hCallee
          fun loosest => by
            rw [Bool.or_eq_false_iff, loosest] at tight
            cases tight.2) inner.phrase)
      cases arguments with
      | nil => exact fun _ => head
      | cons first more =>
          exact fun _ => uncut_seq (by simpa using
            ⟨head, uncut_paren (phrase_commaSep (phrases
              ((cons first more).composed hArguments)))⟩)
  | newTarget =>
      exact fun _ => uncut_seq (by simpa using
        ⟨uncut_token (by decide), uncut_token (by decide), uncut_token (by decide)⟩)
  | object properties => exact fun _ => uncut_objectBraces (properties.composed (forall_child h))
  | staticMember base property ih =>
      have inner : Operand Leaf.Whole base.fragment := base.composed (forall_child h)
      exact fun _ => uncut_staticMember (forall_own h _ (List.mem_singleton_self _))
        (ih (forall_child h)) inner.phrase
  | template tag parts ihTag =>
      obtain ⟨hTag, hParts⟩ := forall_two h
      have own := forall_own (forall_own h) _ (List.mem_singleton_self _)
      intro _
      rw [fragment_template]
      exact uncut_template own.framed
        (uncut_writtenAt (by decide) (ihTag hTag) (tag.composed hTag))
        fun f member => (parts.composed hParts _ member f rfl).phrase
  | unary operator operand ih =>
      have inner : Operand Leaf.Whole operand.fragment := operand.composed (forall_child h)
      exact fun _ => uncut_unary (ih (forall_child h)) inner.phrase
  | update leading operator operand ih =>
      have sign : Uncut (token operator.text) := uncut_token (by cases operator <;> decide)
      cases leading with
      | true => exact fun _ => uncut_seq (by simpa using ⟨sign, ih (forall_child h)⟩)
      | false => exact fun _ => uncut_seq (by simpa using ⟨ih (forall_child h), sign⟩)
  | «yield» value ih =>
      cases value with
      | none => exact fun _ => uncut_token (by decide)
      | some value =>
          have inner : Operand Leaf.Whole value.fragment := (some value).composed (forall_child h) _ rfl
          exact fun _ => uncut_prefixed (by decide)
            (uncut_atLeast (by decide) (ih (forall_child h) value rfl) inner.phrase)
  | yieldFrom source ih =>
      have inner : Operand Leaf.Whole source.fragment := source.composed (forall_child h)
      have starred : Uncut (spaced [token "*", atLeast .assignment source source.fragment]) :=
        uncut_prefixed (by decide) (uncut_atLeast (by decide) (ih (forall_child h)) inner.phrase)
      exact fun _ => uncut_seq (by simpa using ⟨uncut_token (by decide), starred⟩)
  -- parts of expressions
  | subject expression ih => exact ih (forall_child h)
  | spread expression ih =>
      have inner : Operand Leaf.Whole expression.fragment := expression.composed (forall_child h)
      exact uncut_rest (uncut_atLeast (by decide) (ih (forall_child h)) inner.phrase)
  | argument expression ih =>
      have inner : Operand Leaf.Whole expression.fragment := expression.composed (forall_child h)
      exact uncut_atLeast (by decide) (ih (forall_child h)) inner.phrase
  -- binding patterns and assignment targets
  | bindingName name => exact uncut_binding (forall_own h _ (List.mem_singleton_self _))
  | arrayBinding elements remainder | arrayTarget elements remainder =>
      obtain ⟨hElements, hRest⟩ := forall_two h
      exact uncut_bracket (phrase_patternElements (elements.composed hElements)
        (remainder.composed hRest))
  | objectBinding properties | objectTarget properties =>
      exact uncut_objectBraces (phrases (properties.composed (forall_child h)))
  | bindingWithDefault target value ihTarget ihValue
  | targetWithDefault target value ihTarget ihValue =>
      obtain ⟨hTarget, hValue⟩ := forall_two h
      have inner : Operand Leaf.Whole value.fragment := value.composed hValue
      exact uncut_defaulted (ihTarget hTarget) (ihValue hValue) inner.phrase
  | parameter _ ih | targetName _ ih | simpleTarget _ ih | targetElement _ ih =>
      exact ih (forall_child h)
  | staticMemberTarget base property ih =>
      have inner : Operand Leaf.Whole base.fragment := base.composed (forall_child h)
      exact uncut_staticMember (forall_own h _ (List.mem_singleton_self _)) (ih (forall_child h))
        inner.phrase
  | computedMemberTarget base key ihBase =>
      obtain ⟨hBase, hKey⟩ := forall_two h
      have inner : Operand Leaf.Whole base.fragment := base.composed hBase
      have innerKey : Operand Leaf.Whole key.fragment := key.composed hKey
      exact uncut_computedMember (ihBase hBase) inner.phrase innerKey.phrase
  | _ => trivial

end Node

end EcmaScribe
