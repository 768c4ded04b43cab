/-
# EcmaScribe.Tree.Walk -- going through a tree in source order

`Node.collect` gathers what each node of a tree has to tell: first the node itself, then
its children in the order in which the script writes them.

`Node.visits` is the plainest use of it, a log of the nodes met on the way.  A name that a
declaration introduces directly is met as a name and not as a pattern.
-/
import EcmaScribe.Tree.Node

namespace EcmaScribe

set_option autoImplicit false

namespace Node

/-- What every node of a tree tells, a node before its children and children in source
order. -/
def collect {α : Type} (own : {c : Category} → Node c → List α) {c : Category} :
    Node c → List α
  -- sequences and optional children
  | n@(cons head tail) => own n ++ head.collect own ++ tail.collect own
  | n@(some child) => own n ++ child.collect own
  -- programs and modules
  | n@(script directives statements) => own n ++ directives.collect own ++ statements.collect own
  | n@(moduleRoot directives items) => own n ++ directives.collect own ++ items.collect own
  | n@(importNames default named _) => own n ++ default.collect own ++ named.collect own
  | n@(importNamespace default space _) => own n ++ default.collect own ++ space.collect own
  | n@(exported declaration) => own n ++ declaration.collect own
  | n@(exportFrom named _) => own n ++ named.collect own
  | n@(exportLocals named) => own n ++ named.collect own
  | n@(exportDefault body) => own n ++ body.collect own
  | n@(itemStatement item) => own n ++ item.collect own
  | n@(importSpecifier _ binding) => own n ++ binding.collect own
  | n@(exportFunction declaration) => own n ++ declaration.collect own
  | n@(exportClass declaration) => own n ++ declaration.collect own
  | n@(exportVariables declaration) => own n ++ declaration.collect own
  | n@(exportLocalSpecifier name _) => own n ++ name.collect own
  | n@(defaultFunction declaration) => own n ++ declaration.collect own
  | n@(defaultClass declaration) => own n ++ declaration.collect own
  | n@(defaultExpression expression) => own n ++ expression.collect own
  -- statements
  | n@(blockStatement body) => own n ++ body.collect own
  | n@(doWhile body test) => own n ++ body.collect own ++ test.collect own
  | n@(evaluate expression) => own n ++ expression.collect own
  | n@(forIn left right body) =>
      own n ++ left.collect own ++ right.collect own ++ body.collect own
  | n@(forOf left right body) =>
      own n ++ left.collect own ++ right.collect own ++ body.collect own
  | n@(forLoop init test advance body) =>
      own n ++ init.collect own ++ test.collect own ++ advance.collect own ++ body.collect own
  | n@(ifElse test consequent alternate) =>
      own n ++ test.collect own ++ consequent.collect own ++ alternate.collect own
  | n@(labeled _ body) => own n ++ body.collect own
  | n@(returnValue value) => own n ++ value.collect own
  | n@(switch discriminant cases) => own n ++ discriminant.collect own ++ cases.collect own
  | n@(switchWithDefault discriminant before default after) =>
      own n ++ discriminant.collect own ++ before.collect own ++ default.collect own ++
        after.collect own
  | n@(throw value) => own n ++ value.collect own
  | n@(tryCatch body handler) => own n ++ body.collect own ++ handler.collect own
  | n@(tryFinally body handler finalizer) =>
      own n ++ body.collect own ++ handler.collect own ++ finalizer.collect own
  | n@(declare declaration) => own n ++ declaration.collect own
  | n@(whileLoop test body) => own n ++ test.collect own ++ body.collect own
  | n@(withObject scope body) => own n ++ scope.collect own ++ body.collect own
  | n@(functionStatement declaration) => own n ++ declaration.collect own
  | n@(classStatement declaration) => own n ++ declaration.collect own
  -- parts of statements
  | n@(block statements) => own n ++ statements.collect own
  | n@(loopVariables declaration) => own n ++ declaration.collect own
  | n@(loopTarget target) => own n ++ target.collect own
  | n@(initVariables declaration) => own n ++ declaration.collect own
  | n@(initExpression expression) => own n ++ expression.collect own
  | n@(switchCase test consequent) => own n ++ test.collect own ++ consequent.collect own
  | n@(switchDefault consequent) => own n ++ consequent.collect own
  | n@(catchClause binding body) => own n ++ binding.collect own ++ body.collect own
  | n@(variableDeclaration _ declarators) => own n ++ declarators.collect own
  | n@(declarator binding init) => own n ++ binding.collect own ++ init.collect own
  -- functions and classes
  | n@(functionDeclaration _ _ name params body) =>
      own n ++ name.collect own ++ params.collect own ++ body.collect own
  | n@(classDeclaration name heritage elements) =>
      own n ++ name.collect own ++ heritage.collect own ++ elements.collect own
  | n@(parameters items rest) => own n ++ items.collect own ++ rest.collect own
  | n@(functionBody directives statements) =>
      own n ++ directives.collect own ++ statements.collect own
  | n@(arrowBlock body) => own n ++ body.collect own
  | n@(arrowResult expression) => own n ++ expression.collect own
  | n@(classElement _ member) => own n ++ member.collect own
  | n@(method _ _ name params body) =>
      own n ++ name.collect own ++ params.collect own ++ body.collect own
  | n@(getter name body) => own n ++ name.collect own ++ body.collect own
  | n@(setter name param body) =>
      own n ++ name.collect own ++ param.collect own ++ body.collect own
  -- expressions
  | n@(array elements) => own n ++ elements.collect own
  | n@(arrow _ params body) => own n ++ params.collect own ++ body.collect own
  | n@(assign target value) => own n ++ target.collect own ++ value.collect own
  | n@(await operand) => own n ++ operand.collect own
  | n@(binary left _ right) => own n ++ left.collect own ++ right.collect own
  | n@(call callee arguments) => own n ++ callee.collect own ++ arguments.collect own
  | n@(classExpression name heritage elements) =>
      own n ++ name.collect own ++ heritage.collect own ++ elements.collect own
  | n@(compoundAssign target _ value) => own n ++ target.collect own ++ value.collect own
  | n@(computedMember base key) => own n ++ base.collect own ++ key.collect own
  | n@(conditional test consequent alternate) =>
      own n ++ test.collect own ++ consequent.collect own ++ alternate.collect own
  | n@(functionExpression _ _ name params body) =>
      own n ++ name.collect own ++ params.collect own ++ body.collect own
  | n@(identifier name) => own n ++ name.collect own
  | n@(new callee arguments) => own n ++ callee.collect own ++ arguments.collect own
  | n@(object properties) => own n ++ properties.collect own
  | n@(staticMember base _) => own n ++ base.collect own
  | n@(template tag parts) => own n ++ tag.collect own ++ parts.collect own
  | n@(unary _ operand) => own n ++ operand.collect own
  | n@(update _ _ operand) => own n ++ operand.collect own
  | n@(.yield value) => own n ++ value.collect own
  | n@(yieldFrom source) => own n ++ source.collect own
  -- parts of expressions
  | n@(subject expression) => own n ++ expression.collect own
  | n@(spread expression) => own n ++ expression.collect own
  | n@(argument expression) => own n ++ expression.collect own
  | n@(substitution expression) => own n ++ expression.collect own
  | n@(dataProperty name value) => own n ++ name.collect own ++ value.collect own
  | n@(shorthand name) => own n ++ name.collect own
  | n@(methodProperty member) => own n ++ member.collect own
  | n@(computedName expression) => own n ++ expression.collect own
  -- binding patterns
  | n@(bindingName name) => own n ++ name.collect own
  | n@(arrayBinding elements rest) => own n ++ elements.collect own ++ rest.collect own
  | n@(objectBinding properties) => own n ++ properties.collect own
  | n@(bindingWithDefault binding init) => own n ++ binding.collect own ++ init.collect own
  | n@(parameter binding) => own n ++ binding.collect own
  | n@(bindingShorthand name init) => own n ++ name.collect own ++ init.collect own
  | n@(bindingProperty name binding) => own n ++ name.collect own ++ binding.collect own
  -- assignment targets
  | n@(targetName name) => own n ++ name.collect own
  | n@(staticMemberTarget base _) => own n ++ base.collect own
  | n@(computedMemberTarget base key) => own n ++ base.collect own ++ key.collect own
  | n@(arrayTarget elements rest) => own n ++ elements.collect own ++ rest.collect own
  | n@(objectTarget properties) => own n ++ properties.collect own
  | n@(simpleTarget target) => own n ++ target.collect own
  | n@(targetWithDefault target init) => own n ++ target.collect own ++ init.collect own
  | n@(targetElement target) => own n ++ target.collect own
  | n@(targetShorthand name init) => own n ++ name.collect own ++ init.collect own
  | n@(targetProperty name target) => own n ++ name.collect own ++ target.collect own
  -- trees without children
  | n => own n

end Node

/-! ## Visits -/

/-- A node met on the way through a tree. -/
inductive Visit
  | program | script | moduleRoot | item
  | directive (raw : String)
  | statement | expression | property
  | usedName (name : String)
  | binding
  | boundName (name : String)
  | target | simpleTarget
  | assignedName (name : String)
  deriving DecidableEq, Repr

/-- What a single node adds to the log. -/
def Visit.ofNode {c : Category} (n : Node c) : List Visit :=
  match c, n with
  | .program, .script .. => [program, script]
  | .program, .moduleRoot .. => [program, moduleRoot]
  | .moduleItem, _ => [item]
  | .directive, .directive raw => [directive raw]
  | .statement, _ => [statement]
  | .expression, _ => [expression]
  | .property, _ => [property]
  | .usedName, .usedName name => [usedName name]
  | .binding, _ => [binding]
  | .boundName, .boundName name => [boundName name]
  | .target, _ => [target]
  | .simpleTarget, _ => [simpleTarget]
  | .assignedName, .assignedName name => [assignedName name]
  | _, _ => []

/-- The nodes met on the way through a tree. -/
def Node.visits {c : Category} (n : Node c) : List Visit := n.collect Visit.ofNode

end EcmaScribe
