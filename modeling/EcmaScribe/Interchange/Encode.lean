/-
# EcmaScribe.Interchange.Encode -- from nodes to values

Every node is written as a map of its fields in the order of the schema, an absent part
as `null`.  A node whose category has several kinds leads with its kind (`tagged`); a
node that embeds one of another category is written as that node.
-/
import EcmaScribe.Interchange.Decode

namespace EcmaScribe

set_option autoImplicit false

namespace Json

def optionalText : Option String → Json
  | some value => string value
  | none => null

def word {α : Type} [Vocabulary α] (member : α) : Json := string (Vocabulary.word member)

/-- A node of the given kind with the given fields. -/
def kind (name : String) (fields : List (String × Json)) : Json :=
  object ((tagKey, string name) :: fields)

/-- A record as one kind among several. -/
def tagged (name : String) : Json → Json
  | object fields => kind name fields
  | json => json

/-- The items of a sequence with one more in front. -/
def prepend (item : Json) : Json → Json
  | array items => array (item :: items)
  | json => json

end Json

namespace Node

open Json (optionalText word kind tagged prepend)

def toJson {c : Category} : Node c → Json
  -- sequences and optional children
  | nil => .array []
  | cons head tail => prepend head.toJson tail.toJson
  | none => .null
  | some node => node.toJson
  -- names
  | boundName name => .object [("name", .string name)]
  | usedName name => .object [("name", .string name)]
  | assignedName name => .object [("name", .string name)]
  -- programs and modules
  | script directives statements =>
      kind "Script" [("directives", directives.toJson), ("statements", statements.toJson)]
  | moduleRoot directives items =>
      kind "Module" [("directives", directives.toJson), ("items", items.toJson)]
  | directive raw => .object [("rawValue", .string raw)]
  | importNames default named specifier =>
      kind "Import" [("defaultBinding", default.toJson), ("namedImports", named.toJson),
        ("moduleSpecifier", .string specifier)]
  | importNamespace default space specifier =>
      kind "ImportNamespace" [("defaultBinding", default.toJson),
        ("namespaceBinding", space.toJson), ("moduleSpecifier", .string specifier)]
  | exported declaration => kind "Export" [("declaration", declaration.toJson)]
  | exportAll specifier => kind "ExportAllFrom" [("moduleSpecifier", .string specifier)]
  | exportFrom named specifier =>
      kind "ExportFrom" [("namedExports", named.toJson), ("moduleSpecifier", .string specifier)]
  | exportLocals named => kind "ExportLocals" [("namedExports", named.toJson)]
  | exportDefault body => kind "ExportDefault" [("body", body.toJson)]
  | itemStatement statement => statement.toJson
  | importSpecifier name binding =>
      .object [("name", optionalText name), ("binding", binding.toJson)]
  | exportFunction declaration => tagged "FunctionDeclaration" declaration.toJson
  | exportClass declaration => tagged "ClassDeclaration" declaration.toJson
  | exportVariables declaration => tagged "VariableDeclaration" declaration.toJson
  | exportFromSpecifier name exportedName =>
      .object [("name", .string name), ("exportedName", optionalText exportedName)]
  | exportLocalSpecifier name exportedName =>
      .object [("name", name.toJson), ("exportedName", optionalText exportedName)]
  | defaultFunction declaration => tagged "FunctionDeclaration" declaration.toJson
  | defaultClass declaration => tagged "ClassDeclaration" declaration.toJson
  | defaultExpression expression => expression.toJson
  -- statements
  | blockStatement inner => kind "BlockStatement" [("block", inner.toJson)]
  | breakTo label => kind "BreakStatement" [("label", optionalText label)]
  | continueTo label => kind "ContinueStatement" [("label", optionalText label)]
  | debugger => kind "DebuggerStatement" []
  | doWhile body test => kind "DoWhileStatement" [("body", body.toJson), ("test", test.toJson)]
  | empty => kind "EmptyStatement" []
  | evaluate expression => kind "ExpressionStatement" [("expression", expression.toJson)]
  | forIn left right body =>
      kind "ForInStatement"
        [("left", left.toJson), ("right", right.toJson), ("body", body.toJson)]
  | forOf left right body =>
      kind "ForOfStatement"
        [("left", left.toJson), ("right", right.toJson), ("body", body.toJson)]
  | forLoop init test advance body =>
      kind "ForStatement"
        [("init", init.toJson), ("test", test.toJson), ("update", advance.toJson),
          ("body", body.toJson)]
  | ifElse test consequent alternate =>
      kind "IfStatement"
        [("test", test.toJson), ("consequent", consequent.toJson),
          ("alternate", alternate.toJson)]
  | labeled label body =>
      kind "LabeledStatement" [("label", .string label), ("body", body.toJson)]
  | returnValue value => kind "ReturnStatement" [("expression", value.toJson)]
  | switch discriminant cases =>
      kind "SwitchStatement" [("discriminant", discriminant.toJson), ("cases", cases.toJson)]
  | switchWithDefault discriminant before default after =>
      kind "SwitchStatementWithDefault"
        [("discriminant", discriminant.toJson), ("preDefaultCases", before.toJson),
          ("defaultCase", default.toJson), ("postDefaultCases", after.toJson)]
  | throw value => kind "ThrowStatement" [("expression", value.toJson)]
  | tryCatch body handler =>
      kind "TryCatchStatement" [("body", body.toJson), ("catchClause", handler.toJson)]
  | tryFinally body handler finalizer =>
      kind "TryFinallyStatement"
        [("body", body.toJson), ("catchClause", handler.toJson),
          ("finalizer", finalizer.toJson)]
  | declare declaration =>
      kind "VariableDeclarationStatement" [("declaration", declaration.toJson)]
  | whileLoop test body => kind "WhileStatement" [("test", test.toJson), ("body", body.toJson)]
  | withObject scope body =>
      kind "WithStatement" [("object", scope.toJson), ("body", body.toJson)]
  | functionStatement declaration => tagged "FunctionDeclaration" declaration.toJson
  | classStatement declaration => tagged "ClassDeclaration" declaration.toJson
  -- parts of statements
  | block statements => .object [("statements", statements.toJson)]
  | loopVariables declaration => tagged "VariableDeclaration" declaration.toJson
  | loopTarget target => target.toJson
  | initVariables declaration => tagged "VariableDeclaration" declaration.toJson
  | initExpression expression => expression.toJson
  | switchCase test consequent =>
      .object [("test", test.toJson), ("consequent", consequent.toJson)]
  | switchDefault consequent => .object [("consequent", consequent.toJson)]
  | catchClause binding body => .object [("binding", binding.toJson), ("body", body.toJson)]
  | variableDeclaration kind declarators =>
      .object [("kind", word kind), ("declarators", declarators.toJson)]
  | declarator binding init => .object [("binding", binding.toJson), ("init", init.toJson)]
  -- functions and classes
  | functionDeclaration isAsync isGenerator name params body =>
      .object [("isAsync", .bool isAsync), ("isGenerator", .bool isGenerator),
        ("name", name.toJson), ("params", params.toJson), ("body", body.toJson)]
  | classDeclaration name heritage elements =>
      .object [("name", name.toJson), ("super", heritage.toJson),
        ("elements", elements.toJson)]
  | parameters items rest => .object [("items", items.toJson), ("rest", rest.toJson)]
  | functionBody directives statements =>
      .object [("directives", directives.toJson), ("statements", statements.toJson)]
  | arrowBlock body => tagged "FunctionBody" body.toJson
  | arrowResult expression => expression.toJson
  | classElement isStatic member =>
      .object [("isStatic", .bool isStatic), ("method", member.toJson)]
  | method isAsync isGenerator name params body =>
      kind "Method"
        [("isAsync", .bool isAsync), ("isGenerator", .bool isGenerator),
          ("name", name.toJson), ("params", params.toJson), ("body", body.toJson)]
  | getter name body => kind "Getter" [("name", name.toJson), ("body", body.toJson)]
  | setter name param body =>
      kind "Setter" [("name", name.toJson), ("param", param.toJson), ("body", body.toJson)]
  -- expressions
  | array elements => kind "ArrayExpression" [("elements", elements.toJson)]
  | arrow isAsync params body =>
      kind "ArrowExpression"
        [("isAsync", .bool isAsync), ("params", params.toJson), ("body", body.toJson)]
  | assign target value =>
      kind "AssignmentExpression" [("binding", target.toJson), ("expression", value.toJson)]
  | await operand => kind "AwaitExpression" [("expression", operand.toJson)]
  | binary left operator right =>
      kind "BinaryExpression"
        [("left", left.toJson), ("operator", word operator), ("right", right.toJson)]
  | call callee arguments =>
      kind "CallExpression" [("callee", callee.toJson), ("arguments", arguments.toJson)]
  | classExpression name heritage elements =>
      kind "ClassExpression"
        [("name", name.toJson), ("super", heritage.toJson), ("elements", elements.toJson)]
  | compoundAssign target operator value =>
      kind "CompoundAssignmentExpression"
        [("binding", target.toJson), ("operator", word operator),
          ("expression", value.toJson)]
  | computedMember base key =>
      kind "ComputedMemberExpression" [("object", base.toJson), ("expression", key.toJson)]
  | conditional test consequent alternate =>
      kind "ConditionalExpression"
        [("test", test.toJson), ("consequent", consequent.toJson),
          ("alternate", alternate.toJson)]
  | functionExpression isAsync isGenerator name params body =>
      kind "FunctionExpression"
        [("isAsync", .bool isAsync), ("isGenerator", .bool isGenerator),
          ("name", name.toJson), ("params", params.toJson), ("body", body.toJson)]
  | identifier name => tagged "IdentifierExpression" name.toJson
  | boolean value => kind "LiteralBooleanExpression" [("value", .bool value)]
  | infinity => kind "LiteralInfinityExpression" []
  | null => kind "LiteralNullExpression" []
  | number value => kind "LiteralNumericExpression" [("value", .number (.float value))]
  | regExp pattern flags =>
      kind "LiteralRegExpExpression" [("pattern", .string pattern), ("flags", .string flags)]
  | string value => kind "LiteralStringExpression" [("value", .string value)]
  | new callee arguments =>
      kind "NewExpression" [("callee", callee.toJson), ("arguments", arguments.toJson)]
  | newTarget => kind "NewTargetExpression" []
  | object properties => kind "ObjectExpression" [("properties", properties.toJson)]
  | staticMember base property =>
      kind "StaticMemberExpression"
        [("object", base.toJson), ("property", .string property)]
  | template tag parts =>
      kind "TemplateExpression" [("tag", tag.toJson), ("elements", parts.toJson)]
  | thisValue => kind "ThisExpression" []
  | unary operator operand =>
      kind "UnaryExpression" [("operator", word operator), ("operand", operand.toJson)]
  | update leading operator operand =>
      kind "UpdateExpression"
        [("isPrefix", .bool leading), ("operator", word operator),
          ("operand", operand.toJson)]
  | yield value => kind "YieldExpression" [("expression", value.toJson)]
  | yieldFrom source => kind "YieldGeneratorExpression" [("expression", source.toJson)]
  -- parts of expressions
  | superObject => kind "Super" []
  | subject expression => expression.toJson
  | spread expression => kind "SpreadElement" [("expression", expression.toJson)]
  | argument expression => expression.toJson
  | chunk raw => kind "TemplateElement" [("rawValue", .string raw)]
  | substitution expression => expression.toJson
  | dataProperty name value =>
      kind "DataProperty" [("name", name.toJson), ("expression", value.toJson)]
  | shorthand name => kind "ShorthandProperty" [("name", name.toJson)]
  | methodProperty member => member.toJson
  | staticName value => kind "StaticPropertyName" [("value", .string value)]
  | computedName expression => kind "ComputedPropertyName" [("expression", expression.toJson)]
  -- binding patterns
  | bindingName name => tagged "BindingIdentifier" name.toJson
  | arrayBinding elements rest =>
      kind "ArrayBinding" [("elements", elements.toJson), ("rest", rest.toJson)]
  | objectBinding properties => kind "ObjectBinding" [("properties", properties.toJson)]
  | bindingWithDefault binding init =>
      kind "BindingWithDefault" [("binding", binding.toJson), ("init", init.toJson)]
  | parameter binding => binding.toJson
  | bindingShorthand name init =>
      kind "BindingPropertyIdentifier" [("binding", name.toJson), ("init", init.toJson)]
  | bindingProperty name binding =>
      kind "BindingPropertyProperty" [("name", name.toJson), ("binding", binding.toJson)]
  -- assignment targets
  | targetName name => tagged "AssignmentTargetIdentifier" name.toJson
  | staticMemberTarget base property =>
      kind "StaticMemberAssignmentTarget"
        [("object", base.toJson), ("property", .string property)]
  | computedMemberTarget base key =>
      kind "ComputedMemberAssignmentTarget"
        [("object", base.toJson), ("expression", key.toJson)]
  | arrayTarget elements rest =>
      kind "ArrayAssignmentTarget" [("elements", elements.toJson), ("rest", rest.toJson)]
  | objectTarget properties =>
      kind "ObjectAssignmentTarget" [("properties", properties.toJson)]
  | simpleTarget target => target.toJson
  | targetWithDefault target init =>
      kind "AssignmentTargetWithDefault" [("binding", target.toJson), ("init", init.toJson)]
  | targetElement target => target.toJson
  | targetShorthand name init =>
      kind "AssignmentTargetPropertyIdentifier"
        [("binding", name.toJson), ("init", init.toJson)]
  | targetProperty name target =>
      kind "AssignmentTargetPropertyProperty"
        [("name", name.toJson), ("binding", target.toJson)]

end Node

end EcmaScribe
