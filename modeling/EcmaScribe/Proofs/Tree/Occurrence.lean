/-
# EcmaScribe.Proofs.Tree.Occurrence -- the walk that writes a tree, its names left open

`Node.fragment` writes the name of a variable as it stands.  `Node.fragmentWith` leaves that to a
`write` of the caller, which is asked for every name in turn and may have effects: children are
walked in the order in which they are written, and what is written for a child is put in its place
when all children have been walked.  `fragmentWith_eq_fragment` says that nothing else has changed.

The caller is told which of the three kinds of name it is asked for.  The name of a declaration is
asked for even if it is the one that is not written.  Of an assigned name it is told, besides,
whether the name by itself is the target of a compound assignment or the operand of an update;
inside a pattern it never is.
-/
import EcmaScribe.Fragment.OfTree
import EcmaScribe.Tree.Reference

namespace EcmaScribe

set_option autoImplicit false

/-! ## Occurrences -/

/-- Where an assigned name stands. -/
inductive TargetPlace
  | plain
  /-- The target of a compound assignment. -/
  | compoundTarget
  /-- The operand of an update. -/
  | updateOperand
  deriving DecidableEq, Repr

/-- A name of a variable that the walk comes upon. -/
inductive Occurrence
  /-- A name that introduces a variable, as the name of a function or class declaration or
  elsewhere. -/
  | bound (isDeclared : Bool) (name : String)
  | used (name : String)
  | assigned (place : TargetPlace) (name : String)
  deriving DecidableEq, Repr

namespace Occurrence

def role : Occurrence → NameRole
  | bound .. => .bound
  | used _ => .used
  | assigned .. => .assigned

def name : Occurrence → String
  | bound _ name | used name | assigned _ name => name

/-- Introducing a variable writes it, using one reads it.  Assigning writes, and reads as well
where the old value goes into the new one. -/
def access : Occurrence → Access
  | bound .. => .write
  | used _ => .read
  | assigned .plain _ => .write
  | assigned .compoundTarget _ | assigned .updateOperand _ => .readWrite

/-- The declaration of a default export may have no name to write. -/
def isWritten : Occurrence → Bool
  | bound isDeclared name => !(isDeclared && name = Fragment.defaultExportName)
  | used _ | assigned .. => true

/-- The name as it stands. -/
def fragment (o : Occurrence) : Fragment := .lexeme (.name o.role o.name)

end Occurrence

/-! ## The walk -/

/-- The name that a declaration introduces. -/
def Node.boundText : Node .boundName → String
  | .boundName text => text

namespace Node

open Fragment (token spaced statement atLeast parenIf defaulted keyed)

variable {m : Type → Type} [Monad m] (write : Occurrence → m Fragment)

/-- The parameters of an arrow function.  A single plain name is not walked as a list. -/
def arrowHead (params : Node .parameters) (walk : m Fragment) : m Fragment :=
  match Fragment.soleName? params with
  | Option.some name => write (.bound false name)
  | Option.none => walk

/-- The fragment of a tree, with `write` for the names of variables.  The place is that of the
name which the tree itself may be. -/
def fragmentWith (place : TargetPlace) {c : Category} : Node c → m c.Output
  -- sequences and optional children
  | nil => pure []
  | cons head tail => return (← head.fragmentWith .plain) :: (← tail.fragmentWith .plain)
  | none => pure Option.none
  | some node => return Option.some (← node.fragmentWith .plain)
  -- names
  | boundName name => write (.bound false name)
  | usedName name => write (.used name)
  | assignedName name => write (.assigned place name)
  -- programs and modules
  | script directives statements =>
      return .lines ((← directives.fragmentWith .plain) ++ (← statements.fragmentWith .plain))
  | moduleRoot directives items =>
      return .lines ((← directives.fragmentWith .plain) ++ (← items.fragmentWith .plain))
  | directive raw => pure (statement (.lexeme (.directive raw)))
  | importNames default named specifier =>
      return Fragment.importNames (← default.fragmentWith .plain) (← named.fragmentWith .plain)
        specifier
  | importNamespace default space specifier =>
      return Fragment.importNamespace (← default.fragmentWith .plain) (← space.fragmentWith .plain)
        specifier
  | exported declaration => return spaced [token "export", ← declaration.fragmentWith .plain]
  | exportAll specifier =>
      pure (statement (spaced (token "export" :: token "*" :: Fragment.fromClause specifier)))
  | exportFrom named specifier =>
      return statement (spaced (token "export" ::
        .brace (.commaSep (← named.fragmentWith .plain)) :: Fragment.fromClause specifier))
  | exportLocals named =>
      return statement (spaced [token "export", .brace (.commaSep (← named.fragmentWith .plain))])
  | exportDefault body =>
      return spaced [token "export", token "default", ← body.fragmentWith .plain]
  | itemStatement item => item.fragmentWith .plain
  | importSpecifier name binding =>
      return Fragment.renamed (name.map Fragment.specifierName) (← binding.fragmentWith .plain)
  | exportFunction declaration => declaration.fragmentWith .plain
  | exportClass declaration => declaration.fragmentWith .plain
  | exportVariables declaration => return statement (← declaration.fragmentWith .plain)
  | exportFromSpecifier name Option.none => pure (Fragment.specifierName name)
  | exportFromSpecifier name (Option.some outer) =>
      pure (Fragment.renamed (Option.some (Fragment.specifierName name))
        (Fragment.specifierName outer))
  | exportLocalSpecifier name Option.none => name.fragmentWith .plain
  | exportLocalSpecifier name (Option.some outer) =>
      return Fragment.renamed (Option.some (← name.fragmentWith .plain))
        (Fragment.specifierName outer)
  | defaultFunction declaration => declaration.fragmentWith .plain
  | defaultClass declaration => declaration.fragmentWith .plain
  | defaultExpression expression => do
      let f := atLeast .assignment expression (← expression.fragmentWith .plain)
      return statement (parenIf f.leading.startsWithFunctionOrClass f)
  -- statements
  | blockStatement body => body.fragmentWith .plain
  | breakTo label =>
      pure (statement (spaced
        (token "break" :: label.toList.map fun l => .lexeme (.name .label l))))
  | continueTo label =>
      pure (statement (spaced
        (token "continue" :: label.toList.map fun l => .lexeme (.name .label l))))
  | debugger => pure (statement (token "debugger"))
  | doWhile body test =>
      return statement (spaced [token "do", ← body.fragmentWith .plain, token "while",
        .paren (← test.fragmentWith .plain)])
  | empty => pure .semicolon
  | evaluate expression => do
      let f ← expression.fragmentWith .plain
      return statement (parenIf f.leading.isStatementHazard f)
  | forIn left right body => do
      let f ← left.fragmentWith .plain
      return spaced [token "for",
        .paren (spaced [parenIf f.leading.startsWithLetBracket f, token "in",
          ← right.fragmentWith .plain]),
        ← body.fragmentWith .plain]
  | forOf left right body => do
      let f ← left.fragmentWith .plain
      return spaced [token "for",
        .paren (spaced [parenIf f.leading.startsWithLet f, token "of",
          atLeast .assignment right (← right.fragmentWith .plain)]),
        ← body.fragmentWith .plain]
  | forLoop init test advance body => do
      let init : Fragment := match ← init.fragmentWith .plain with
        | Option.some f => .noIn f
        | Option.none => .empty
      let clause (f : Option Fragment) := f.toList.flatMap fun f => [.space, f]
      return spaced [token "for",
        .paren (.seq (init :: token ";" :: clause (← test.fragmentWith .plain) ++ token ";" ::
          clause (← advance.fragmentWith .plain))),
        ← body.fragmentWith .plain]
  | ifElse test consequent alternate => do
      let head ← test.fragmentWith .plain
      let f ← consequent.fragmentWith .plain
      return match ← alternate.fragmentWith .plain with
        | Option.some alternate =>
            spaced [token "if", .paren head,
              if f.missingElse then Fragment.block [f] else f, token "else", alternate]
        | Option.none => .marked .endsWithMissingElse (spaced [token "if", .paren head, f])
  | labeled label body =>
      return keyed (.lexeme (.name .label label)) (← body.fragmentWith .plain)
  | returnValue value =>
      return statement (spaced (token "return" :: (← value.fragmentWith .plain).toList))
  | switch discriminant cases =>
      return spaced [token "switch", .paren (← discriminant.fragmentWith .plain),
        Fragment.block (← cases.fragmentWith .plain)]
  | switchWithDefault discriminant before default after =>
      return spaced [token "switch", .paren (← discriminant.fragmentWith .plain),
        Fragment.block ((← before.fragmentWith .plain) ++ (← default.fragmentWith .plain) ::
          (← after.fragmentWith .plain))]
  | throw value => return statement (spaced [token "throw", ← value.fragmentWith .plain])
  | tryCatch body handler =>
      return spaced [token "try", ← body.fragmentWith .plain, ← handler.fragmentWith .plain]
  | tryFinally body handler finalizer =>
      return spaced (token "try" :: (← body.fragmentWith .plain) ::
        (← handler.fragmentWith .plain).toList ++
          [token "finally", ← finalizer.fragmentWith .plain])
  | declare declaration => return statement (← declaration.fragmentWith .plain)
  | whileLoop test body =>
      return spaced [token "while", .paren (← test.fragmentWith .plain),
        ← body.fragmentWith .plain]
  | withObject scope body =>
      return spaced [token "with", .paren (← scope.fragmentWith .plain),
        ← body.fragmentWith .plain]
  | functionStatement declaration => declaration.fragmentWith .plain
  | classStatement declaration => declaration.fragmentWith .plain
  -- parts of statements
  | block statements => return Fragment.block (← statements.fragmentWith .plain)
  | loopVariables declaration => declaration.fragmentWith .plain
  | loopTarget target => target.fragmentWith .plain
  | initVariables declaration => declaration.fragmentWith .plain
  | initExpression expression => do
      let f ← expression.fragmentWith .plain
      return parenIf f.leading.startsWithLetBracket f
  | switchCase test consequent =>
      return .seq [spaced [token "case", ← test.fragmentWith .plain], token ":",
        .indent (.lines (← consequent.fragmentWith .plain))]
  | switchDefault consequent =>
      return .seq [token "default", token ":",
        .indent (.lines (← consequent.fragmentWith .plain))]
  | catchClause binding body =>
      return spaced [token "catch", .paren (← binding.fragmentWith .plain),
        ← body.fragmentWith .plain]
  | variableDeclaration kind declarators =>
      return spaced [token kind.text, .commaSep (← declarators.fragmentWith .plain)]
  | declarator binding none => binding.fragmentWith .plain
  | declarator binding (some init) =>
      return defaulted (← binding.fragmentWith .plain) init (← init.fragmentWith .plain)
  -- functions and classes
  | functionDeclaration isAsync isGenerator name params body => do
      let f ← write (.bound true name.boundText)
      return Fragment.function isAsync isGenerator (Fragment.declaredName name f)
        (← params.fragmentWith .plain) (← body.fragmentWith .plain)
  | classDeclaration name none elements => do
      let f ← write (.bound true name.boundText)
      return Fragment.class_ (Fragment.declaredName name f) Option.none
        (← elements.fragmentWith .plain)
  | classDeclaration name (some heritage) elements => do
      let f ← write (.bound true name.boundText)
      return Fragment.class_ (Fragment.declaredName name f)
        (Option.some (atLeast .new heritage (← heritage.fragmentWith .plain)))
        (← elements.fragmentWith .plain)
  | parameters items rest =>
      return Fragment.parameterList (← items.fragmentWith .plain) (← rest.fragmentWith .plain)
  | functionBody directives statements =>
      return Fragment.block
        ((← directives.fragmentWith .plain) ++ (← statements.fragmentWith .plain))
  | arrowBlock body => body.fragmentWith .plain
  | arrowResult expression => do
      let f := atLeast .assignment expression (← expression.fragmentWith .plain)
      return parenIf f.leading.startsWithCurly f
  | classElement isStatic member => do
      let f ← member.fragmentWith .plain
      return if isStatic then spaced [token "static", f] else f
  | method isAsync isGenerator name params body =>
      return Fragment.method isAsync isGenerator (← name.fragmentWith .plain)
        (← params.fragmentWith .plain) (← body.fragmentWith .plain)
  | getter name body =>
      return Fragment.accessor "get" (← name.fragmentWith .plain) .empty
        (← body.fragmentWith .plain)
  | setter name param body =>
      return Fragment.accessor "set" (← name.fragmentWith .plain) (← param.fragmentWith .plain)
        (← body.fragmentWith .plain)
  -- expressions
  | array elements => return .bracket (Fragment.elements (← elements.fragmentWith .plain))
  | arrow isAsync params body => do
      let head ← arrowHead write params (params.fragmentWith .plain)
      return .seq (Fragment.asyncHead isAsync ++
        [spaced [head, token "=>", ← body.fragmentWith .plain]])
  | assign target value =>
      return defaulted (← target.fragmentWith .plain) value (← value.fragmentWith .plain)
  | await operand =>
      return spaced [token "await", atLeast .prefixed operand (← operand.fragmentWith .plain)]
  | binary left operator right =>
      return Fragment.binary left operator right (← left.fragmentWith .plain)
        (← right.fragmentWith .plain)
  | call callee arguments =>
      return .seq [parenIf (callee.precedence < .call) (← callee.fragmentWith .plain),
        .paren (.commaSep (← arguments.fragmentWith .plain))]
  | classExpression name none elements =>
      return .marked .startsWithFunctionOrClass
        (Fragment.class_ (← name.fragmentWith .plain) Option.none
          (← elements.fragmentWith .plain))
  | classExpression name (some heritage) elements =>
      return .marked .startsWithFunctionOrClass
        (Fragment.class_ (← name.fragmentWith .plain)
          (Option.some (atLeast .new heritage (← heritage.fragmentWith .plain)))
          (← elements.fragmentWith .plain))
  | compoundAssign target operator value =>
      return spaced [← target.fragmentWith .compoundTarget, token operator.text,
        atLeast .assignment value (← value.fragmentWith .plain)]
  | computedMember base key =>
      return Fragment.computedMember base (← base.fragmentWith .plain) (← key.fragmentWith .plain)
  | conditional test consequent alternate =>
      return spaced [atLeast .logicalOr test (← test.fragmentWith .plain), token "?",
        atLeast .assignment consequent (← consequent.fragmentWith .plain), token ":",
        atLeast .assignment alternate (← alternate.fragmentWith .plain)]
  | functionExpression isAsync isGenerator name params body =>
      return .marked .startsWithFunctionOrClass
        (Fragment.function isAsync isGenerator (← name.fragmentWith .plain)
          (← params.fragmentWith .plain) (← body.fragmentWith .plain))
  | identifier name => name.fragmentWith .plain
  | boolean value => pure (token (if value then "true" else "false"))
  | infinity => pure (.lexeme (.number (.infinity false)))
  | null => pure (token "null")
  | number value => pure (.lexeme (.number value))
  | regExp pattern flags => pure (.lexeme (.regExp pattern flags))
  | string value => pure (.lexeme (.string value))
  | new callee nil =>
      return spaced [token "new", parenIf (callee.hasCallOnLeftSpine || callee.precedence < .member)
        (← callee.fragmentWith .plain)]
  | new callee arguments =>
      return .seq [spaced [token "new",
        parenIf (callee.hasCallOnLeftSpine || callee.precedence < .member)
          (← callee.fragmentWith .plain)], .paren (.commaSep (← arguments.fragmentWith .plain))]
  | newTarget => pure (.seq [token "new", token ".", token "target"])
  | object properties => return Fragment.objectBraces (← properties.fragmentWith .plain)
  | staticMember base property =>
      return Fragment.staticMember base (← base.fragmentWith .plain) property
  | template none parts =>
      return Fragment.template Option.none (← parts.fragmentWith .plain)
  | template (some tag) parts =>
      return Fragment.template (Option.some (atLeast .call tag (← tag.fragmentWith .plain)))
        (← parts.fragmentWith .plain)
  | thisValue => pure (token "this")
  | unary operator operand =>
      return Fragment.unary operator operand (← operand.fragmentWith .plain)
  | update leading operator operand => do
      let f ← operand.fragmentWith .updateOperand
      return if leading then .seq [token operator.text, f] else .seq [f, token operator.text]
  | .yield none => pure (token "yield")
  | .yield (some value) =>
      return spaced [token "yield", atLeast .assignment value (← value.fragmentWith .plain)]
  | yieldFrom source =>
      return .seq [token "yield",
        spaced [token "*", atLeast .assignment source (← source.fragmentWith .plain)]]
  -- parts of expressions
  | superObject => pure (token "super")
  | subject expression => expression.fragmentWith .plain
  | spread expression =>
      return Fragment.rest (atLeast .assignment expression (← expression.fragmentWith .plain))
  | argument expression =>
      return atLeast .assignment expression (← expression.fragmentWith .plain)
  | chunk raw => pure (.text raw)
  | substitution expression => return .code (← expression.fragmentWith .plain)
  | dataProperty name value =>
      return keyed (← name.fragmentWith .plain)
        (atLeast .assignment value (← value.fragmentWith .plain))
  | shorthand name => name.fragmentWith .plain
  | methodProperty member => member.fragmentWith .plain
  | staticName value => pure (Fragment.propertyKey value)
  | computedName expression =>
      return .bracket (atLeast .assignment expression (← expression.fragmentWith .plain))
  -- binding patterns
  | bindingName name => name.fragmentWith .plain
  | arrayBinding elements rest =>
      return Fragment.arrayPattern (← elements.fragmentWith .plain) (← rest.fragmentWith .plain)
  | objectBinding properties => return Fragment.objectBraces (← properties.fragmentWith .plain)
  | bindingWithDefault binding init =>
      return defaulted (← binding.fragmentWith .plain) init (← init.fragmentWith .plain)
  | parameter binding => binding.fragmentWith .plain
  | bindingShorthand name none => name.fragmentWith .plain
  | bindingShorthand name (some init) =>
      return defaulted (← name.fragmentWith .plain) init (← init.fragmentWith .plain)
  | bindingProperty name binding =>
      return keyed (← name.fragmentWith .plain) (← binding.fragmentWith .plain)
  -- assignment targets
  | targetName name => name.fragmentWith place
  | staticMemberTarget base property =>
      return Fragment.staticMember base (← base.fragmentWith .plain) property
  | computedMemberTarget base key =>
      return Fragment.computedMember base (← base.fragmentWith .plain) (← key.fragmentWith .plain)
  | arrayTarget elements rest =>
      return Fragment.arrayPattern (← elements.fragmentWith .plain) (← rest.fragmentWith .plain)
  | objectTarget properties => return Fragment.objectBraces (← properties.fragmentWith .plain)
  | simpleTarget target => target.fragmentWith .plain
  | targetWithDefault target init =>
      return defaulted (← target.fragmentWith .plain) init (← init.fragmentWith .plain)
  | targetElement target => target.fragmentWith .plain
  | targetShorthand name none => name.fragmentWith .plain
  | targetShorthand name (some init) =>
      return defaulted (← name.fragmentWith .plain) init (← init.fragmentWith .plain)
  | targetProperty name target =>
      return keyed (← name.fragmentWith .plain) (← target.fragmentWith .plain)

/-! ## Names as they stand -/

section Pure

variable {α β γ δ ε : Type} {x : Id α} {y : Id β} {z : Id γ} {w : Id δ} {a : α} {b : β} {c : γ}
  {d : δ}

theorem pure_one {f : α → ε} (hx : x = a) : (do return f (← x)) = (pure (f a) : Id ε) :=
  hx ▸ rfl

theorem pure_two {f : α → β → ε} (hx : x = a) (hy : y = b) :
    (do return f (← x) (← y)) = (pure (f a b) : Id ε) := hx ▸ hy ▸ rfl

theorem pure_three {f : α → β → γ → ε} (hx : x = a) (hy : y = b) (hz : z = c) :
    (do return f (← x) (← y) (← z)) = (pure (f a b c) : Id ε) := hx ▸ hy ▸ hz ▸ rfl

theorem pure_four {f : α → β → γ → δ → ε} (hx : x = a) (hy : y = b) (hz : z = c) (hw : w = d) :
    (do return f (← x) (← y) (← z) (← w)) = (pure (f a b c d) : Id ε) :=
  hx ▸ hy ▸ hz ▸ hw ▸ rfl

end Pure

theorem fragment_boundText (name : Node .boundName) :
    Occurrence.fragment (.bound true name.boundText) = name.fragment := by
  cases name
  rfl

theorem arrowHead_eq {params : Node .parameters} {walk : Id Fragment} {f : Fragment}
    (h : walk = f) : arrowHead (m := Id) Occurrence.fragment params walk =
      Fragment.arrowParameters params f := by
  subst h
  unfold arrowHead Fragment.arrowParameters
  cases Fragment.soleName? params <;> rfl

/-- Written as they stand, the names make the fragment of the tree. -/
theorem fragmentWith_eq_fragment (place : TargetPlace) {c : Category} (n : Node c) :
    n.fragmentWith (m := Id) Occurrence.fragment place = n.fragment := by
  induction n generalizing place with
  | itemStatement _ ih | exportFunction _ ih | exportClass _ ih | defaultFunction _ ih
  | defaultClass _ ih | blockStatement _ ih | functionStatement _ ih | classStatement _ ih
  | loopVariables _ ih | loopTarget _ ih | initVariables _ ih | arrowBlock _ ih | identifier _ ih
  | subject _ ih | shorthand _ ih | methodProperty _ ih | bindingName _ ih | parameter _ ih
  | simpleTarget _ ih | targetElement _ ih => exact ih .plain
  | targetName _ ih => exact ih place
  | some _ ih | exported _ ih | exportFrom _ _ ih | exportLocals _ ih | exportDefault _ ih
  | importSpecifier _ _ ih | exportVariables _ ih | defaultExpression _ ih | evaluate _ ih
  | labeled _ _ ih | returnValue _ ih | throw _ ih | declare _ ih | block _ ih
  | initExpression _ ih | switchDefault _ ih | variableDeclaration _ _ ih | arrowResult _ ih
  | classElement _ _ ih | array _ ih | await _ ih | object _ ih | staticMember _ _ ih
  | unary _ _ ih | yieldFrom _ ih | spread _ ih | argument _ ih | substitution _ ih
  | computedName _ ih | objectBinding _ ih | staticMemberTarget _ _ ih | objectTarget _ ih =>
      exact pure_one (ih .plain)
  | update _ _ _ ih => exact pure_one (ih .updateOperand)
  | cons _ _ ih₁ ih₂ | script _ _ ih₁ ih₂ | moduleRoot _ _ ih₁ ih₂ | importNames _ _ _ ih₁ ih₂
  | importNamespace _ _ _ ih₁ ih₂ | doWhile _ _ ih₁ ih₂ | switch _ _ ih₁ ih₂
  | tryCatch _ _ ih₁ ih₂ | whileLoop _ _ ih₁ ih₂ | withObject _ _ ih₁ ih₂
  | switchCase _ _ ih₁ ih₂ | catchClause _ _ ih₁ ih₂ | parameters _ _ ih₁ ih₂
  | functionBody _ _ ih₁ ih₂ | getter _ _ ih₁ ih₂ | assign _ _ ih₁ ih₂ | binary _ _ _ ih₁ ih₂
  | call _ _ ih₁ ih₂ | computedMember _ _ ih₁ ih₂ | dataProperty _ _ ih₁ ih₂
  | arrayBinding _ _ ih₁ ih₂ | bindingWithDefault _ _ ih₁ ih₂ | bindingProperty _ _ ih₁ ih₂
  | computedMemberTarget _ _ ih₁ ih₂ | arrayTarget _ _ ih₁ ih₂ | targetWithDefault _ _ ih₁ ih₂
  | targetProperty _ _ ih₁ ih₂ => exact pure_two (ih₁ .plain) (ih₂ .plain)
  | compoundAssign _ _ _ ih₁ ih₂ => exact pure_two (ih₁ .compoundTarget) (ih₂ .plain)
  | forIn _ _ _ ih₁ ih₂ ih₃ | forOf _ _ _ ih₁ ih₂ ih₃ | ifElse _ _ _ ih₁ ih₂ ih₃
  | tryFinally _ _ _ ih₁ ih₂ ih₃ | method _ _ _ _ _ ih₁ ih₂ ih₃ | setter _ _ _ ih₁ ih₂ ih₃
  | conditional _ _ _ ih₁ ih₂ ih₃ | functionExpression _ _ _ _ _ ih₁ ih₂ ih₃ =>
      exact pure_three (ih₁ .plain) (ih₂ .plain) (ih₃ .plain)
  | forLoop _ _ _ _ ih₁ ih₂ ih₃ ih₄ | switchWithDefault _ _ _ _ ih₁ ih₂ ih₃ ih₄ =>
      exact pure_four (ih₁ .plain) (ih₂ .plain) (ih₃ .plain) (ih₄ .plain)
  -- trees that are written differently without one of their parts
  | exportLocalSpecifier _ outer ih =>
      cases outer with
      | none => exact ih .plain
      | some outer => exact pure_one (ih .plain)
  | declarator _ init ih₁ ih₂ | bindingShorthand _ init ih₁ ih₂ | targetShorthand _ init ih₁ ih₂ =>
      cases init with
      | none => exact ih₁ .plain
      | some init => exact pure_two (ih₁ .plain) (Option.some.inj (ih₂ .plain))
  | «yield» value ih =>
      cases value with
      | none => rfl
      | some value => exact pure_one (Option.some.inj (ih .plain))
  | new _ arguments ih₁ ih₂ =>
      cases arguments with
      | nil => exact pure_one (ih₁ .plain)
      | cons head tail => exact pure_two (ih₁ .plain) (ih₂ .plain)
  | template tag _ ih₁ ih₂ =>
      cases tag with
      | none => exact pure_one (ih₂ .plain)
      | some tag => exact pure_two (Option.some.inj (ih₁ .plain)) (ih₂ .plain)
  | classExpression _ heritage _ ih₁ ih₂ ih₃ =>
      cases heritage with
      | none => exact pure_two (ih₁ .plain) (ih₃ .plain)
      | some heritage =>
          exact pure_three (ih₁ .plain) (Option.some.inj (ih₂ .plain)) (ih₃ .plain)
  -- names that the walk does not reach through their node
  | functionDeclaration _ _ name _ _ _ ih₂ ih₃ =>
      exact pure_three (fragment_boundText name) (ih₂ .plain) (ih₃ .plain)
  | classDeclaration name heritage _ _ ih₂ ih₃ =>
      cases heritage with
      | none => exact pure_two (fragment_boundText name) (ih₃ .plain)
      | some heritage =>
          exact pure_three (fragment_boundText name) (Option.some.inj (ih₂ .plain)) (ih₃ .plain)
  | arrow _ params _ ih₁ ih₂ => exact pure_two (arrowHead_eq (ih₁ .plain)) (ih₂ .plain)
  | exportFromSpecifier _ outer => cases outer <;> rfl
  | _ => rfl

end Node

end EcmaScribe
