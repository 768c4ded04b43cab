/-
# EcmaScribe.Proofs.Tree.Code -- expressions, targets and patterns are code

The fragment of every expression is put together by the rules of `Code` (`Node.code`).  So are
those of assignment targets, patterns, functions and classes; what stands in their brackets is
known from `Node.composed`.

The results on what stands outside brackets ask for leaves that are written as no bracket and as
none of some words.  Names other than these words are such leaves (`Leaf.NamedBut.tame`).
-/
import EcmaScribe.Proofs.Fragment.Code
import EcmaScribe.Proofs.Tree.Composed
import EcmaScribe.Proofs.Tree.Within
import EcmaScribe.Proofs.WordSeparation

namespace EcmaScribe

set_option autoImplicit false

open Fragment

/-! ## Names -/

section Names

variable {k : IdentifierClass}

/-- A sign is no name. -/
theorem IdentifierClass.isName_sign {c : Char} (ascii : Text.isAscii c = true)
    (punctuation : (c.isAlpha || c = '$' || c = '_') = false) : k.isName [c] = false := by
  simp [isName, starts_eq_false ascii punctuation]

/-- Punctuation is no name. -/
theorem IdentifierClass.isName_punctuation :
    ∀ text ∈ ";" :: "," :: bracketTexts, k.isName text.toList = false := by
  simp only [bracketTexts, List.forall_mem_cons]
  refine ⟨isName_sign (c := ';') ?_ ?_, isName_sign (c := ',') ?_ ?_, isName_sign (c := '(') ?_ ?_,
    isName_sign (c := '[') ?_ ?_, isName_sign (c := '\x7b') ?_ ?_, isName_sign (c := ')') ?_ ?_,
    isName_sign (c := ']') ?_ ?_, isName_sign (c := '\x7d') ?_ ?_, by simp⟩ <;> decide

/-- The words that are leaves are names. -/
theorem Leaf.Named.isName_word {leaf : Leaf} (named : leaf.Named k) {l : Lexeme}
    (written : leaf.lexeme? = some l) {word : String} (reads : l.word? = some word) :
    k.isName word.toList = true := by
  cases leaf with
  | name role text =>
      cases written
      cases reads
      exact named
  | key value =>
      by_cases bare : Text.isIdentifierName value.toList = true
      · simp only [lexeme?, bare, if_true, Option.some.injEq] at written
        subst written
        cases reads
        exact named bare
      · simp only [lexeme?, bare, Option.some.injEq] at written
        subst written
        cases literal : Double.ofKey? value.toList <;> simp [literal, Lexeme.word?] at reads
  | template parts => cases written
  | number | string | specifier | regExp | directive =>
      cases written
      cases reads

/-- So they are no punctuation. -/
theorem Leaf.Named.not_mem_punctuation {leaf : Leaf} (named : leaf.Named k) {l : Lexeme}
    (written : leaf.lexeme? = some l) {word : String} (reads : l.word? = some word) :
    word ∉ ";" :: "," :: bracketTexts := fun punctuation => by
  have isName := named.isName_word written reads
  rw [IdentifierClass.isName_punctuation word punctuation] at isName
  cases isName

/-- Names are names other than the words; all other text is arbitrary. -/
structure Leaf.NamedBut (k : IdentifierClass) (words : List String) (leaf : Leaf) : Prop where
  named : leaf.Named k
  avoids : leaf.Avoids words

/-- Such leaves are no punctuation, either. -/
theorem Leaf.NamedBut.tame {words others : List String} {leaf : Leaf} (h : leaf.NamedBut k words)
    (subset : others ⊆ ";" :: words) (isIn : "in" ∈ words) : leaf.Tame others := by
  intro l written word reads member
  have own : word ∉ words := h.avoids l written word reads
  have noPunctuation := h.named.not_mem_punctuation written reads
  simp only [List.mem_cons, not_or] at noPunctuation
  rcases List.mem_cons.1 member with rfl | member
  · exact own isIn
  · rcases List.mem_append.1 member with other | bracket
    · rcases List.mem_cons.1 (subset other) with rfl | listed
      · exact noPunctuation.1 rfl
      · exact own listed
    · exact noPunctuation.2.2 bracket

end Names

/-! ## Trees -/

/-- What is proved of the output of a tree; nothing of statements and of what stands only in
brackets. -/
def Category.IsCode (admits : Leaf → Prop) : (c : Category) → c.Output → Prop
  | .list c, fs => ∀ f ∈ fs, c.IsCode admits f
  | .option c, f => ∀ g ∈ f, c.IsCode admits g
  | .templatePart, piece => ∀ f, .code f = piece → Code admits [f]
  | .block, f | .catchClause, f | .declarator, f | .functionDeclaration, f | .classDeclaration, f
  | .parameters, f | .functionBody, f | .arrowBody, f | .expression, f | .subject, f | .usedName, f
  | .assignedName, f | .binding, f | .target, f | .simpleTarget, f => Code admits [f]
  | _, _ => True

namespace Node

variable {admits : Leaf → Prop}

theorem code_binding {name : Node .boundName} (admitted : admits (.ofBinding name)) :
    Code admits [name.fragment] := by
  cases name
  exact .name admitted

theorem code_declaredName {name : Node .boundName}
    (admitted : ∀ l ∈ Leaf.ofDeclared name, admits l) :
    ∀ f ∈ declaredName name name.fragment, Code admits [f] := by
  cases name with
  | boundName text =>
      intro f written
      by_cases unnamed : text = defaultExportName
      · simp [declaredName, unnamed] at written
      · simp only [declaredName, unnamed, if_false, Option.mem_some_iff] at written
        subst written
        exact .name (admitted _ (by simp [Leaf.ofDeclared, unnamed]))

theorem code_optionalBinding {name : Node (.option .boundName)}
    (admitted : ∀ l ∈ Leaf.ofOptional name, admits l) : ∀ f ∈ name.fragment, Code admits [f] := by
  cases name with
  | none => intro f written; cases written
  | some name =>
      intro f written
      cases written
      exact code_binding (admitted _ (by simp [Leaf.ofOptional]))

/-- The operand of an optional place, with parentheses if its level asks for them. -/
theorem code_writtenAt {level : Precedence} {n : Node (.option .expression)}
    (h : ∀ f ∈ n.fragment, Code admits [f]) (inner : ∀ f ∈ n.fragment, Operand admits f) :
    ∀ f ∈ writtenAt level n, Code admits [f] := by
  cases n with
  | none => intro f written; cases written
  | some n =>
      intro f written
      cases written
      exact (h _ rfl).atLeast _ _ (inner _ rfl).phrase

theorem code_initialized {f : Fragment} (h : Code admits [f]) {init : Node (.option .expression)}
    (hInit : ∀ g ∈ init.fragment, Code admits [g]) (inner : ∀ g ∈ init.fragment, Operand admits g) :
    Code admits [initialized f init] := by
  cases init with
  | none => exact h
  | some init => exact h.defaulted _ (hInit _ rfl) (inner _ rfl).phrase

/-- What an expression, a target or a pattern writes is code. -/
theorem code {c : Category} (n : Node c) (h : ∀ l ∈ n.leaves, admits l) :
    c.IsCode admits n.fragment := by
  induction n with
  -- sequences and optional children
  | nil => intro f member; cases member
  | cons head tail ihHead ihTail =>
      obtain ⟨hHead, hTail⟩ := forall_two h
      exact List.forall_mem_cons.2 ⟨ihHead hHead, ihTail hTail⟩
  | none => intro f member; cases member
  | some child ih =>
      intro f member
      cases member
      exact ih (forall_child h)
  -- names
  | usedName name | assignedName name => exact .name (h _ (List.mem_singleton_self _))
  -- parts of statements
  | block statements => exact .block (phrases (statements.composed (forall_child h)))
  | catchClause binding body ihBinding ihBody =>
      obtain ⟨hBinding, hBody⟩ := forall_two h
      have inner : Operand admits binding.fragment := binding.composed hBinding
      exact .headed (by decide) inner.phrase (ihBody hBody)
  | declarator binding init ihBinding ihInit =>
      obtain ⟨hBinding, hInit⟩ := forall_two h
      rw [fragment_declarator]
      exact code_initialized (ihBinding hBinding) (ihInit hInit) (init.composed hInit)
  -- functions and classes
  | functionDeclaration isAsync isGenerator name params body ihName ihParams ihBody =>
      obtain ⟨-, hParams, hBody⟩ := forall_three h
      have named := code_declaredName (forall_own (forall_own (forall_own h)))
      exact .function named (ihParams hParams) (ihBody hBody)
  | classDeclaration name heritage elements ihName ihHeritage ihElements =>
      obtain ⟨-, hHeritage, hElements⟩ := forall_three h
      have named := code_declaredName (forall_own (forall_own (forall_own h)))
      rw [fragment_classDeclaration]
      exact .class_ named (code_writtenAt (ihHeritage hHeritage) (heritage.composed hHeritage))
        (elements.composed hElements)
  | parameters items remainder =>
      obtain ⟨hItems, hRest⟩ := forall_two h
      exact .paren (phrase_parameterItems (items.composed hItems) (remainder.composed hRest))
  | functionBody directives statements =>
      obtain ⟨hDirectives, hStatements⟩ := forall_two h
      exact .block (List.forall_mem_append.2
        ⟨phrases (directives.composed hDirectives), phrases (statements.composed hStatements)⟩)
  | arrowBlock body ih => exact ih (forall_child h)
  | arrowResult expression ih =>
      have inner : Operand admits expression.fragment := expression.composed (forall_child h)
      have argument := Code.atLeast .assignment expression (ih (forall_child h)) inner.phrase
      exact argument.parenIf _ (operand_atLeast inner).phrase
  -- expressions
  | array elements =>
      exact .bracket (phrase_elements fun item member f hf =>
        (elements.composed (forall_child h) item member f hf).phrase)
  | arrow isAsync params body ihParams ihBody =>
      obtain ⟨hParams, hBody⟩ := forall_two h
      have head : Code admits [arrowParameters params params.fragment] := by
        unfold arrowParameters
        split
        · rename_i name sole
          obtain rfl := eq_of_soleName? sole
          exact .name (hParams _ (List.mem_singleton_self _))
        · exact ihParams hParams
      exact .seq (.asyncHead isAsync (.infixed (by decide) head (ihBody hBody)))
  | assign target value ihTarget ihValue =>
      obtain ⟨hTarget, hValue⟩ := forall_two h
      have inner : Operand admits value.fragment := value.composed hValue
      exact (ihTarget hTarget).defaulted _ (ihValue hValue) inner.phrase
  | await operand ih =>
      have inner : Operand admits operand.fragment := operand.composed (forall_child h)
      exact .prefixed (by decide) ((ih (forall_child h)).atLeast _ _ inner.phrase)
  | binary left operator right ihLeft ihRight =>
      obtain ⟨hLeft, hRight⟩ := forall_two h
      have innerLeft : Operand admits left.fragment := left.composed hLeft
      have innerRight : Operand admits right.fragment := right.composed hRight
      exact .binary (ihLeft hLeft) (ihRight hRight) innerLeft.phrase innerRight.phrase
  | call callee arguments ihCallee =>
      obtain ⟨hCallee, hArguments⟩ := forall_two h
      have inner : Operand admits callee.fragment := callee.composed hCallee
      exact .seq (.cons ((ihCallee hCallee).parenIf _ inner.phrase)
        (.paren (phrase_commaSep (phrases (arguments.composed hArguments)))))
  | classExpression name heritage elements ihName ihHeritage ihElements =>
      obtain ⟨-, hHeritage, hElements⟩ := forall_three h
      have named := code_optionalBinding (forall_own (forall_own (forall_own h)))
      rw [fragment_classExpression]
      exact .marked _ (.class_ named
        (code_writtenAt (ihHeritage hHeritage) (heritage.composed hHeritage))
        (elements.composed hElements))
  | compoundAssign target operator value ihTarget ihValue =>
      obtain ⟨hTarget, hValue⟩ := forall_two h
      have inner : Operand admits value.fragment := value.composed hValue
      exact .infixed (by cases operator <;> decide) (ihTarget hTarget)
        ((ihValue hValue).atLeast _ _ inner.phrase)
  | computedMember base key ihBase | computedMemberTarget base key ihBase =>
      obtain ⟨hBase, hKey⟩ := forall_two h
      have inner : Operand admits base.fragment := base.composed hBase
      have innerKey : Operand admits key.fragment := key.composed hKey
      exact .computedMember (ihBase hBase) inner.phrase innerKey.phrase
  | conditional test consequent alternate ihTest ihConsequent ihAlternate =>
      obtain ⟨hTest, hConsequent, hAlternate⟩ := forall_three h
      have innerTest : Operand admits test.fragment := test.composed hTest
      have innerConsequent : Operand admits consequent.fragment := consequent.composed hConsequent
      have innerAlternate : Operand admits alternate.fragment := alternate.composed hAlternate
      exact .seq (.apart ((ihTest hTest).atLeast _ _ innerTest.phrase)
        (.apart (.word "?" (by decide))
        (.apart ((ihConsequent hConsequent).atLeast _ _ innerConsequent.phrase)
        (.apart (.word ":" (by decide))
        ((ihAlternate hAlternate).atLeast _ _ innerAlternate.phrase)))))
  | functionExpression isAsync isGenerator name params body ihName ihParams ihBody =>
      obtain ⟨-, hParams, hBody⟩ := forall_three h
      have named := code_optionalBinding (forall_own (forall_own (forall_own h)))
      exact .marked _ (.function named (ihParams hParams) (ihBody hBody))
  | identifier name ih => exact ih (forall_child h)
  | boolean value => cases value <;> exact .word _ (by decide)
  | infinity => exact .infinity
  | null | thisValue | superObject => exact .word _ (by decide)
  | number | regExp | string => exact .leaf (h _ (List.mem_singleton_self _)) rfl
  | new callee arguments ihCallee =>
      obtain ⟨hCallee, hArguments⟩ := forall_two h
      have inner : Operand admits callee.fragment := callee.composed hCallee
      have head : Code admits [spaced [token "new",
          parenIf (callee.hasCallOnLeftSpine || callee.precedence < .member) callee.fragment]] :=
        .prefixed (by decide) ((ihCallee hCallee).parenIf _ inner.phrase)
      cases arguments with
      | nil => exact head
      | cons first more =>
          exact .seq (.cons head
            (.paren (phrase_commaSep (phrases ((cons first more).composed hArguments)))))
  | newTarget =>
      exact .seq (.cons (.word "new" (by decide)) (.cons (.word "." (by decide))
        (.word "target" (by decide))))
  | object properties => exact .objectBraces (properties.composed (forall_child h))
  | staticMember base property ih | staticMemberTarget base property ih =>
      have inner : Operand admits base.fragment := base.composed (forall_child h)
      exact .staticMember (forall_own h _ (List.mem_singleton_self _)) (ih (forall_child h))
        inner.phrase
  | template tag parts ihTag ihParts =>
      obtain ⟨hTag, hParts⟩ := forall_two h
      rw [fragment_template]
      exact .template (code_writtenAt (ihTag hTag) (tag.composed hTag))
        fun f member => ihParts hParts _ member f rfl
  | unary operator operand ih =>
      have inner : Operand admits operand.fragment := operand.composed (forall_child h)
      exact .unary (ih (forall_child h)) inner.phrase
  | update leading operator operand ih =>
      have sign : Code admits [token operator.text] := .word _ (by cases operator <;> decide)
      cases leading with
      | true => exact .seq (.cons sign (ih (forall_child h)))
      | false => exact .seq (.cons (ih (forall_child h)) sign)
  | «yield» value ih =>
      cases value with
      | none => exact .word _ (by decide)
      | some value =>
          have inner : Operand admits value.fragment := (some value).composed (forall_child h) _ rfl
          exact .prefixed (by decide) ((ih (forall_child h) _ rfl).atLeast _ _ inner.phrase)
  | yieldFrom source ih =>
      have inner : Operand admits source.fragment := source.composed (forall_child h)
      exact .seq (.cons (.word "yield" (by decide))
        (.prefixed (by decide) ((ih (forall_child h)).atLeast _ _ inner.phrase)))
  -- parts of expressions
  | subject expression ih => exact ih (forall_child h)
  | chunk raw => intro f written; cases written
  | substitution expression ih =>
      intro f written
      cases written
      exact ih (forall_child h)
  -- binding patterns and assignment targets
  | bindingName name => exact code_binding (forall_own h _ (List.mem_singleton_self _))
  | arrayBinding elements remainder | arrayTarget elements remainder =>
      obtain ⟨hElements, hRest⟩ := forall_two h
      exact .bracket (phrase_patternElements (elements.composed hElements)
        (remainder.composed hRest))
  | objectBinding properties | objectTarget properties =>
      exact .objectBraces (phrases (properties.composed (forall_child h)))
  | targetName name ih | simpleTarget target ih => exact ih (forall_child h)
  | _ => trivial

/-! ## Outside brackets -/

section Plain

variable {words : List String} (known : words ⊆ statementTexts)

include known

theorem plain_variableDeclaration {declaration : Node .variableDeclaration}
    (tame : ∀ leaf ∈ declaration.leaves, leaf.Tame words) :
    Fragment.Plain words fun b => declaration.fragment.lexemes b := by
  cases declaration with
  | variableDeclaration kind declarators =>
      have keyword : Fragment.Plain words fun b => (token kind.text).lexemes b :=
        plain_token known (by cases kind <;> decide)
      have listed : ∀ f ∈ declarators.fragment, Fragment.Plain words fun b => f.lexemes b :=
        fun f member => (declarators.code (forall_child tame) f member).plain_single known
      have shape : (variableDeclaration kind declarators).fragment =
          spaced [token kind.text, .commaSep declarators.fragment] := rfl
      simpa [shape] using keyword.append (plain_commaSep known listed)

end Plain

end Node

end EcmaScribe
