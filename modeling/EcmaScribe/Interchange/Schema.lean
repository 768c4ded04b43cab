/-
# EcmaScribe.Interchange.Schema -- the shape of every kind of node

A node is written as a record of named fields.  `Variant` says which fields a kind of
node has, in order, and builds the node from their values; `Form` says how the kinds of
one category are told apart:

* a `record` has one kind, and nothing marks it;
* a `tagged` enumeration marks each kind by its name;
* a `union` tries one set of tagged kinds after another.

`Form.of` is the schema.  The form of a union is flat: a category that embeds
another one tries its own kinds first and then those of the other.
-/
import EcmaScribe.Tree.Node

namespace EcmaScribe

set_option autoImplicit false

/-! ## Fields and records -/

inductive FieldSort
  | text
  | optionalText
  | flag
  /-- A flag that is off where it is missing. -/
  | optionalFlag
  | number
  | binaryOperator
  | unaryOperator
  | updateOperator
  | compoundOperator
  | declarationKind
  | node (c : Category)
  deriving DecidableEq, Repr

namespace FieldSort

@[reducible]
def Value : FieldSort → Type
  | text => String
  | optionalText => Option String
  | flag | optionalFlag => Bool
  | number => Double
  | binaryOperator => BinaryOperator
  | unaryOperator => UnaryOperator
  | updateOperator => UpdateOperator
  | compoundOperator => CompoundOperator
  | declarationKind => DeclarationKind
  | node c => Node c

/-- What a missing field stands for, where one may be missing. -/
def absent? : (sort : FieldSort) → Option sort.Value
  | optionalText => some none
  | optionalFlag => some false
  | node (.option _) => some Node.none
  | _ => none

end FieldSort

structure Field where
  name : String
  sort : FieldSort
  deriving DecidableEq, Repr

/-- The values of a list of fields. -/
@[reducible]
def Record : List Field → Type
  | [] => Unit
  | field :: fields => field.sort.Value × Record fields

/-- One kind of node. -/
structure Variant (c : Category) where
  name : String
  fields : List Field
  build : Record fields → Node c

/-- The kind that embeds each node of another kind. -/
def Variant.map {c d : Category} (embed : Node c → Node d) (variant : Variant c) : Variant d :=
  ⟨variant.name, variant.fields, embed ∘ variant.build⟩

/-- How the kinds of a category are told apart. -/
inductive Form : Category → Type
  | record {c : Category} (variant : Variant c) : Form c
  | tagged {c : Category} (name : String) (variants : List (Variant c)) : Form c
  | union {c : Category} (name : String) (layers : List (List (Variant c))) : Form c
  | each (c : Category) : Form (.list c)
  | optional {c : Category} (node : Form c) : Form (.option c)

namespace Schema

/-! ## Fields by sort -/

def text (name : String) : Field := ⟨name, .text⟩
def optionalText (name : String) : Field := ⟨name, .optionalText⟩
def flag (name : String) : Field := ⟨name, .flag⟩
def optionalFlag (name : String) : Field := ⟨name, .optionalFlag⟩
def child (name : String) (c : Category) : Field := ⟨name, .node c⟩
def children (name : String) (c : Category) : Field := ⟨name, .node (.list c)⟩
def maybe (name : String) (c : Category) : Field := ⟨name, .node (.option c)⟩
def holes (name : String) (c : Category) : Field := ⟨name, .node (.list (.option c))⟩

/-! ## Names -/

def boundName : Variant .boundName :=
  ⟨"BindingIdentifier", [text "name"], fun (name, ()) => .boundName name⟩

def usedName : Variant .usedName :=
  ⟨"IdentifierExpression", [text "name"], fun (name, ()) => .usedName name⟩

def assignedName : Variant .assignedName :=
  ⟨"AssignmentTargetIdentifier", [text "name"], fun (name, ()) => .assignedName name⟩

/-! ## Functions and classes -/

def parameters : Variant .parameters :=
  ⟨"FormalParameters", [children "items" .parameter, maybe "rest" .binding],
    fun (items, rest, ()) => .parameters items rest⟩

def functionBody : Variant .functionBody :=
  ⟨"FunctionBody", [children "directives" .directive, children "statements" .statement],
    fun (directives, statements, ()) => .functionBody directives statements⟩

def functionDeclaration : Variant .functionDeclaration :=
  ⟨"FunctionDeclaration",
    [optionalFlag "isAsync", flag "isGenerator", child "name" .boundName,
      child "params" .parameters, child "body" .functionBody],
    fun (isAsync, isGenerator, name, params, body, ()) =>
      .functionDeclaration isAsync isGenerator name params body⟩

def classDeclaration : Variant .classDeclaration :=
  ⟨"ClassDeclaration",
    [child "name" .boundName, maybe "super" .expression, children "elements" .classElement],
    fun (name, heritage, elements, ()) => .classDeclaration name heritage elements⟩

def methods : List (Variant .method) := [
  ⟨"Method",
    [optionalFlag "isAsync", flag "isGenerator", child "name" .propertyName,
      child "params" .parameters, child "body" .functionBody],
    fun (isAsync, isGenerator, name, params, body, ()) =>
      .method isAsync isGenerator name params body⟩,
  ⟨"Getter", [child "name" .propertyName, child "body" .functionBody],
    fun (name, body, ()) => .getter name body⟩,
  ⟨"Setter", [child "name" .propertyName, child "param" .parameter, child "body" .functionBody],
    fun (name, param, body, ()) => .setter name param body⟩]

/-! ## Statements -/

def variableDeclaration : Variant .variableDeclaration :=
  ⟨"VariableDeclaration", [⟨"kind", .declarationKind⟩, children "declarators" .declarator],
    fun (kind, declarators, ()) => .variableDeclaration kind declarators⟩

def statements : List (Variant .statement) := [
  ⟨"BlockStatement", [child "block" .block], fun (block, ()) => .blockStatement block⟩,
  ⟨"BreakStatement", [optionalText "label"], fun (label, ()) => .breakTo label⟩,
  ⟨"ContinueStatement", [optionalText "label"], fun (label, ()) => .continueTo label⟩,
  ⟨"DebuggerStatement", [], fun () => .debugger⟩,
  ⟨"DoWhileStatement", [child "body" .statement, child "test" .expression],
    fun (body, test, ()) => .doWhile body test⟩,
  ⟨"EmptyStatement", [], fun () => .empty⟩,
  ⟨"ExpressionStatement", [child "expression" .expression],
    fun (expression, ()) => .evaluate expression⟩,
  ⟨"ForInStatement",
    [child "left" .loopBinding, child "right" .expression, child "body" .statement],
    fun (left, right, body, ()) => .forIn left right body⟩,
  ⟨"ForOfStatement",
    [child "left" .loopBinding, child "right" .expression, child "body" .statement],
    fun (left, right, body, ()) => .forOf left right body⟩,
  ⟨"ForStatement",
    [maybe "init" .loopInit, maybe "test" .expression, maybe "update" .expression,
      child "body" .statement],
    fun (init, test, update, body, ()) => .forLoop init test update body⟩,
  ⟨"IfStatement",
    [child "test" .expression, child "consequent" .statement, maybe "alternate" .statement],
    fun (test, consequent, alternate, ()) => .ifElse test consequent alternate⟩,
  ⟨"LabeledStatement", [text "label", child "body" .statement],
    fun (label, body, ()) => .labeled label body⟩,
  ⟨"ReturnStatement", [maybe "expression" .expression], fun (value, ()) => .returnValue value⟩,
  ⟨"SwitchStatement", [child "discriminant" .expression, children "cases" .switchCase],
    fun (discriminant, cases, ()) => .switch discriminant cases⟩,
  ⟨"SwitchStatementWithDefault",
    [child "discriminant" .expression, children "preDefaultCases" .switchCase,
      child "defaultCase" .switchDefault, children "postDefaultCases" .switchCase],
    fun (discriminant, before, default, after, ()) =>
      .switchWithDefault discriminant before default after⟩,
  ⟨"ThrowStatement", [child "expression" .expression], fun (value, ()) => .throw value⟩,
  ⟨"TryCatchStatement", [child "body" .block, child "catchClause" .catchClause],
    fun (body, handler, ()) => .tryCatch body handler⟩,
  ⟨"TryFinallyStatement",
    [child "body" .block, maybe "catchClause" .catchClause, child "finalizer" .block],
    fun (body, handler, finalizer, ()) => .tryFinally body handler finalizer⟩,
  ⟨"VariableDeclarationStatement", [child "declaration" .variableDeclaration],
    fun (declaration, ()) => .declare declaration⟩,
  ⟨"WhileStatement", [child "test" .expression, child "body" .statement],
    fun (test, body, ()) => .whileLoop test body⟩,
  ⟨"WithStatement", [child "object" .expression, child "body" .statement],
    fun (object, body, ()) => .withObject object body⟩,
  functionDeclaration.map .functionStatement,
  classDeclaration.map .classStatement]

/-! ## Expressions -/

def expressions : List (Variant .expression) := [
  ⟨"ArrayExpression", [holes "elements" .argument], fun (elements, ()) => .array elements⟩,
  ⟨"ArrowExpression",
    [optionalFlag "isAsync", child "params" .parameters, child "body" .arrowBody],
    fun (isAsync, params, body, ()) => .arrow isAsync params body⟩,
  ⟨"AssignmentExpression", [child "binding" .target, child "expression" .expression],
    fun (target, value, ()) => .assign target value⟩,
  ⟨"AwaitExpression", [child "expression" .expression], fun (operand, ()) => .await operand⟩,
  ⟨"BinaryExpression",
    [child "left" .expression, ⟨"operator", .binaryOperator⟩, child "right" .expression],
    fun (left, operator, right, ()) => .binary left operator right⟩,
  ⟨"CallExpression", [child "callee" .subject, children "arguments" .argument],
    fun (callee, arguments, ()) => .call callee arguments⟩,
  ⟨"ClassExpression",
    [maybe "name" .boundName, maybe "super" .expression, children "elements" .classElement],
    fun (name, heritage, elements, ()) => .classExpression name heritage elements⟩,
  ⟨"CompoundAssignmentExpression",
    [child "binding" .simpleTarget, ⟨"operator", .compoundOperator⟩,
      child "expression" .expression],
    fun (target, operator, value, ()) => .compoundAssign target operator value⟩,
  ⟨"ComputedMemberExpression", [child "object" .subject, child "expression" .expression],
    fun (object, key, ()) => .computedMember object key⟩,
  ⟨"ConditionalExpression",
    [child "test" .expression, child "consequent" .expression, child "alternate" .expression],
    fun (test, consequent, alternate, ()) => .conditional test consequent alternate⟩,
  ⟨"FunctionExpression",
    [optionalFlag "isAsync", flag "isGenerator", maybe "name" .boundName,
      child "params" .parameters, child "body" .functionBody],
    fun (isAsync, isGenerator, name, params, body, ()) =>
      .functionExpression isAsync isGenerator name params body⟩,
  usedName.map .identifier,
  ⟨"LiteralBooleanExpression", [flag "value"], fun (value, ()) => .boolean value⟩,
  ⟨"LiteralInfinityExpression", [], fun () => .infinity⟩,
  ⟨"LiteralNullExpression", [], fun () => .null⟩,
  ⟨"LiteralNumericExpression", [⟨"value", .number⟩], fun (value, ()) => .number value⟩,
  ⟨"LiteralRegExpExpression", [text "pattern", text "flags"],
    fun (pattern, flags, ()) => .regExp pattern flags⟩,
  ⟨"LiteralStringExpression", [text "value"], fun (value, ()) => .string value⟩,
  ⟨"NewExpression", [child "callee" .expression, children "arguments" .argument],
    fun (callee, arguments, ()) => .new callee arguments⟩,
  ⟨"NewTargetExpression", [], fun () => .newTarget⟩,
  ⟨"ObjectExpression", [children "properties" .property],
    fun (properties, ()) => .object properties⟩,
  ⟨"StaticMemberExpression", [child "object" .subject, text "property"],
    fun (object, property, ()) => .staticMember object property⟩,
  ⟨"TemplateExpression", [maybe "tag" .expression, children "elements" .templatePart],
    fun (tag, parts, ()) => .template tag parts⟩,
  ⟨"ThisExpression", [], fun () => .thisValue⟩,
  ⟨"UnaryExpression", [⟨"operator", .unaryOperator⟩, child "operand" .expression],
    fun (operator, operand, ()) => .unary operator operand⟩,
  ⟨"UpdateExpression",
    [flag "isPrefix", ⟨"operator", .updateOperator⟩, child "operand" .simpleTarget],
    fun (leading, operator, operand, ()) => .update leading operator operand⟩,
  ⟨"YieldExpression", [maybe "expression" .expression], fun (value, ()) => .yield value⟩,
  ⟨"YieldGeneratorExpression", [child "expression" .expression],
    fun (source, ()) => .yieldFrom source⟩]

/-! ## Binding patterns and assignment targets -/

def bindings : List (Variant .binding) := [
  boundName.map .bindingName,
  ⟨"ArrayBinding", [holes "elements" .parameter, maybe "rest" .binding],
    fun (elements, rest, ()) => .arrayBinding elements rest⟩,
  ⟨"ObjectBinding", [children "properties" .bindingProperty],
    fun (properties, ()) => .objectBinding properties⟩]

def simpleTargets : List (Variant .simpleTarget) := [
  assignedName.map .targetName,
  ⟨"StaticMemberAssignmentTarget", [child "object" .subject, text "property"],
    fun (object, property, ()) => .staticMemberTarget object property⟩,
  ⟨"ComputedMemberAssignmentTarget", [child "object" .subject, child "expression" .expression],
    fun (object, key, ()) => .computedMemberTarget object key⟩]

def targets : List (List (Variant .target)) := [
  [⟨"ArrayAssignmentTarget", [holes "elements" .targetElement, maybe "rest" .target],
      fun (elements, rest, ()) => .arrayTarget elements rest⟩,
    ⟨"ObjectAssignmentTarget", [children "properties" .targetProperty],
      fun (properties, ()) => .objectTarget properties⟩],
  simpleTargets.map (.map .simpleTarget)]

end Schema

/-! ## The schema -/

open Schema in
def Form.of : (c : Category) → Form c
  | .list c => .each c
  | .option c => .optional (Form.of c)
  | .boundName => .record Schema.boundName
  | .usedName => .record Schema.usedName
  | .assignedName => .record Schema.assignedName
  | .program => .tagged "Program" [
      ⟨"Script", [children "directives" .directive, children "statements" .statement],
        fun (directives, statements, ()) => .script directives statements⟩,
      ⟨"Module", [children "directives" .directive, children "items" .moduleItem],
        fun (directives, items, ()) => .moduleRoot directives items⟩]
  | .directive => .record ⟨"Directive", [text "rawValue"], fun (raw, ()) => .directive raw⟩
  | .moduleItem => .union "ModuleItem" [
      [⟨"Import",
          [maybe "defaultBinding" .boundName, children "namedImports" .importSpecifier,
            text "moduleSpecifier"],
          fun (default, named, specifier, ()) => .importNames default named specifier⟩,
        ⟨"ImportNamespace",
          [maybe "defaultBinding" .boundName, child "namespaceBinding" .boundName,
            text "moduleSpecifier"],
          fun (default, space, specifier, ()) => .importNamespace default space specifier⟩,
        ⟨"Export", [child "declaration" .exportDeclaration],
          fun (declaration, ()) => .exported declaration⟩,
        ⟨"ExportAllFrom", [text "moduleSpecifier"], fun (specifier, ()) => .exportAll specifier⟩,
        ⟨"ExportFrom", [children "namedExports" .exportFromSpecifier, text "moduleSpecifier"],
          fun (named, specifier, ()) => .exportFrom named specifier⟩,
        ⟨"ExportLocals", [children "namedExports" .exportLocalSpecifier],
          fun (named, ()) => .exportLocals named⟩,
        ⟨"ExportDefault", [child "body" .exportDefaultBody],
          fun (body, ()) => .exportDefault body⟩],
      Schema.statements.map (.map .itemStatement)]
  | .importSpecifier => .record
      ⟨"ImportSpecifier", [optionalText "name", child "binding" .boundName],
        fun (name, binding, ()) => .importSpecifier name binding⟩
  | .exportDeclaration => .tagged "ExportDeclaration" [
      Schema.functionDeclaration.map .exportFunction,
      Schema.classDeclaration.map .exportClass,
      Schema.variableDeclaration.map .exportVariables]
  | .exportFromSpecifier => .record
      ⟨"ExportFromSpecifier", [text "name", optionalText "exportedName"],
        fun (name, exported, ()) => .exportFromSpecifier name exported⟩
  | .exportLocalSpecifier => .record
      ⟨"ExportLocalSpecifier", [child "name" .usedName, optionalText "exportedName"],
        fun (name, exported, ()) => .exportLocalSpecifier name exported⟩
  | .exportDefaultBody => .union "ExportDefaultBody" [
      [Schema.functionDeclaration.map .defaultFunction,
        Schema.classDeclaration.map .defaultClass],
      Schema.expressions.map (.map .defaultExpression)]
  | .statement => .tagged "Statement" Schema.statements
  | .block => .record
      ⟨"Block", [children "statements" .statement], fun (statements, ()) => .block statements⟩
  | .loopBinding => .union "ForBinding"
      ([Schema.variableDeclaration.map .loopVariables] ::
        Schema.targets.map (·.map (.map .loopTarget)))
  | .loopInit => .union "ForInit" [
      [Schema.variableDeclaration.map .initVariables],
      Schema.expressions.map (.map .initExpression)]
  | .switchCase => .record
      ⟨"SwitchCase", [child "test" .expression, children "consequent" .statement],
        fun (test, consequent, ()) => .switchCase test consequent⟩
  | .switchDefault => .record
      ⟨"SwitchDefault", [children "consequent" .statement],
        fun (consequent, ()) => .switchDefault consequent⟩
  | .catchClause => .record
      ⟨"CatchClause", [child "binding" .binding, child "body" .block],
        fun (binding, body, ()) => .catchClause binding body⟩
  | .variableDeclaration => .record Schema.variableDeclaration
  | .declarator => .record
      ⟨"VariableDeclarator", [child "binding" .binding, maybe "init" .expression],
        fun (binding, init, ()) => .declarator binding init⟩
  | .functionDeclaration => .record Schema.functionDeclaration
  | .classDeclaration => .record Schema.classDeclaration
  | .parameters => .record Schema.parameters
  | .functionBody => .record Schema.functionBody
  | .arrowBody => .union "ArrowBody" [
      [Schema.functionBody.map .arrowBlock],
      Schema.expressions.map (.map .arrowResult)]
  | .classElement => .record
      ⟨"ClassElement", [flag "isStatic", child "method" .method],
        fun (isStatic, method, ()) => .classElement isStatic method⟩
  | .method => .tagged "MethodDefinition" Schema.methods
  | .expression => .tagged "Expression" Schema.expressions
  | .subject => .union "ExpressionSuper" [
      [⟨"Super", [], fun () => .superObject⟩],
      Schema.expressions.map (.map .subject)]
  | .argument => .union "SpreadElementExpression" [
      [⟨"SpreadElement", [child "expression" .expression],
        fun (expression, ()) => .spread expression⟩],
      Schema.expressions.map (.map .argument)]
  | .templatePart => .union "TemplateItem" [
      [⟨"TemplateElement", [text "rawValue"], fun (raw, ()) => .chunk raw⟩],
      Schema.expressions.map (.map .substitution)]
  | .property => .tagged "ObjectProperty"
      (⟨"DataProperty", [child "name" .propertyName, child "expression" .expression],
          fun (name, value, ()) => .dataProperty name value⟩ ::
        ⟨"ShorthandProperty", [child "name" .usedName], fun (name, ()) => .shorthand name⟩ ::
        Schema.methods.map (.map .methodProperty))
  | .propertyName => .tagged "PropertyName" [
      ⟨"StaticPropertyName", [text "value"], fun (value, ()) => .staticName value⟩,
      ⟨"ComputedPropertyName", [child "expression" .expression],
        fun (expression, ()) => .computedName expression⟩]
  | .binding => .tagged "Binding" Schema.bindings
  | .parameter => .union "Parameter" [
      [⟨"BindingWithDefault", [child "binding" .binding, child "init" .expression],
        fun (binding, init, ()) => .bindingWithDefault binding init⟩],
      Schema.bindings.map (.map .parameter)]
  | .bindingProperty => .tagged "BindingProperty" [
      ⟨"BindingPropertyIdentifier", [child "binding" .boundName, maybe "init" .expression],
        fun (name, init, ()) => .bindingShorthand name init⟩,
      ⟨"BindingPropertyProperty", [child "name" .propertyName, child "binding" .parameter],
        fun (name, binding, ()) => .bindingProperty name binding⟩]
  | .target => .union "AssignmentTarget" Schema.targets
  | .simpleTarget => .tagged "SimpleAssignmentTarget" Schema.simpleTargets
  | .targetElement => .union "AssignmentTargetMaybeDefault"
      ([⟨"AssignmentTargetWithDefault", [child "binding" .target, child "init" .expression],
          fun (target, init, ()) => .targetWithDefault target init⟩] ::
        Schema.targets.map (·.map (.map .targetElement)))
  | .targetProperty => .tagged "AssignmentTargetProperty" [
      ⟨"AssignmentTargetPropertyIdentifier",
        [child "binding" .assignedName, maybe "init" .expression],
        fun (name, init, ()) => .targetShorthand name init⟩,
      ⟨"AssignmentTargetPropertyProperty",
        [child "name" .propertyName, child "binding" .targetElement],
        fun (name, target, ()) => .targetProperty name target⟩]

end EcmaScribe
