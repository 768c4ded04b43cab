/-
# EcmaScribe.Tree.Node -- syntax trees, sorted by grammatical category

One family of trees, `Node`, indexed by the category of the grammar that a tree
belongs to.  The index keeps a statement out of the place of an expression, and
lists and optional children are categories too, so that every function on trees
and every proof about them is one recursion over one type.

Places that accept one more form than a category has (`super` or an expression, a
spread or an expression, a default value or a bare pattern) are categories of
their own, with a constructor that embeds the category they extend.

The three categories of names tell what a name does: `boundName` introduces a
variable, `usedName` reads one, `assignedName` writes one.  All other names
(properties, labels, exported names) are plain text.
-/
import EcmaScribe.Tree.Operator
import EcmaScribe.Number.Double

namespace EcmaScribe

set_option autoImplicit false

inductive Category
  | program | directive
  | moduleItem | importSpecifier | exportDeclaration | exportFromSpecifier
  | exportLocalSpecifier | exportDefaultBody
  | statement | block | loopBinding | loopInit | switchCase | switchDefault | catchClause
  | variableDeclaration | declarator
  | functionDeclaration | classDeclaration | parameters | functionBody | arrowBody
  | classElement | method
  | expression | subject | argument | templatePart | property | propertyName
  | boundName | usedName | assignedName
  | binding | parameter | bindingProperty
  | target | simpleTarget | targetElement | targetProperty
  | list (element : Category)
  | option (element : Category)
  deriving DecidableEq, Repr

inductive Node : Category → Type
  -- sequences and optional children
  | nil {c : Category} : Node (.list c)
  | cons {c : Category} (head : Node c) (tail : Node (.list c)) : Node (.list c)
  | none {c : Category} : Node (.option c)
  | some {c : Category} (node : Node c) : Node (.option c)
  -- names
  | boundName (name : String) : Node .boundName
  | usedName (name : String) : Node .usedName
  | assignedName (name : String) : Node .assignedName
  -- programs and modules
  | script (directives : Node (.list .directive)) (statements : Node (.list .statement)) :
      Node .program
  | moduleRoot (directives : Node (.list .directive)) (items : Node (.list .moduleItem)) :
      Node .program
  | directive (raw : String) : Node .directive
  | importNames (default : Node (.option .boundName)) (named : Node (.list .importSpecifier))
      (specifier : String) : Node .moduleItem
  | importNamespace (default : Node (.option .boundName)) (space : Node .boundName)
      (specifier : String) : Node .moduleItem
  | exported (declaration : Node .exportDeclaration) : Node .moduleItem
  | exportAll (specifier : String) : Node .moduleItem
  | exportFrom (named : Node (.list .exportFromSpecifier)) (specifier : String) :
      Node .moduleItem
  | exportLocals (named : Node (.list .exportLocalSpecifier)) : Node .moduleItem
  | exportDefault (body : Node .exportDefaultBody) : Node .moduleItem
  | itemStatement (statement : Node .statement) : Node .moduleItem
  | importSpecifier (name : Option String) (binding : Node .boundName) : Node .importSpecifier
  | exportFunction (declaration : Node .functionDeclaration) : Node .exportDeclaration
  | exportClass (declaration : Node .classDeclaration) : Node .exportDeclaration
  | exportVariables (declaration : Node .variableDeclaration) : Node .exportDeclaration
  | exportFromSpecifier (name : String) (exported : Option String) : Node .exportFromSpecifier
  | exportLocalSpecifier (name : Node .usedName) (exported : Option String) :
      Node .exportLocalSpecifier
  | defaultFunction (declaration : Node .functionDeclaration) : Node .exportDefaultBody
  | defaultClass (declaration : Node .classDeclaration) : Node .exportDefaultBody
  | defaultExpression (expression : Node .expression) : Node .exportDefaultBody
  -- statements
  | blockStatement (block : Node .block) : Node .statement
  | breakTo (label : Option String) : Node .statement
  | continueTo (label : Option String) : Node .statement
  | debugger : Node .statement
  | doWhile (body : Node .statement) (test : Node .expression) : Node .statement
  | empty : Node .statement
  | evaluate (expression : Node .expression) : Node .statement
  | forIn (left : Node .loopBinding) (right : Node .expression) (body : Node .statement) :
      Node .statement
  | forOf (left : Node .loopBinding) (right : Node .expression) (body : Node .statement) :
      Node .statement
  | forLoop (init : Node (.option .loopInit)) (test update : Node (.option .expression))
      (body : Node .statement) : Node .statement
  | ifElse (test : Node .expression) (consequent : Node .statement)
      (alternate : Node (.option .statement)) : Node .statement
  | labeled (label : String) (body : Node .statement) : Node .statement
  | returnValue (value : Node (.option .expression)) : Node .statement
  | switch (discriminant : Node .expression) (cases : Node (.list .switchCase)) :
      Node .statement
  | switchWithDefault (discriminant : Node .expression) (before : Node (.list .switchCase))
      (default : Node .switchDefault) (after : Node (.list .switchCase)) : Node .statement
  | throw (value : Node .expression) : Node .statement
  | tryCatch (body : Node .block) (handler : Node .catchClause) : Node .statement
  | tryFinally (body : Node .block) (handler : Node (.option .catchClause))
      (finalizer : Node .block) : Node .statement
  | declare (declaration : Node .variableDeclaration) : Node .statement
  | whileLoop (test : Node .expression) (body : Node .statement) : Node .statement
  | withObject (object : Node .expression) (body : Node .statement) : Node .statement
  | functionStatement (declaration : Node .functionDeclaration) : Node .statement
  | classStatement (declaration : Node .classDeclaration) : Node .statement
  -- parts of statements
  | block (statements : Node (.list .statement)) : Node .block
  | loopVariables (declaration : Node .variableDeclaration) : Node .loopBinding
  | loopTarget (target : Node .target) : Node .loopBinding
  | initVariables (declaration : Node .variableDeclaration) : Node .loopInit
  | initExpression (expression : Node .expression) : Node .loopInit
  | switchCase (test : Node .expression) (consequent : Node (.list .statement)) :
      Node .switchCase
  | switchDefault (consequent : Node (.list .statement)) : Node .switchDefault
  | catchClause (binding : Node .binding) (body : Node .block) : Node .catchClause
  | variableDeclaration (kind : DeclarationKind) (declarators : Node (.list .declarator)) :
      Node .variableDeclaration
  | declarator (binding : Node .binding) (init : Node (.option .expression)) : Node .declarator
  -- functions and classes
  | functionDeclaration (isAsync isGenerator : Bool) (name : Node .boundName)
      (params : Node .parameters) (body : Node .functionBody) : Node .functionDeclaration
  | classDeclaration (name : Node .boundName) (heritage : Node (.option .expression))
      (elements : Node (.list .classElement)) : Node .classDeclaration
  | parameters (items : Node (.list .parameter)) (rest : Node (.option .binding)) :
      Node .parameters
  | functionBody (directives : Node (.list .directive)) (statements : Node (.list .statement)) :
      Node .functionBody
  | arrowBlock (body : Node .functionBody) : Node .arrowBody
  | arrowResult (expression : Node .expression) : Node .arrowBody
  | classElement (isStatic : Bool) (method : Node .method) : Node .classElement
  | method (isAsync isGenerator : Bool) (name : Node .propertyName) (params : Node .parameters)
      (body : Node .functionBody) : Node .method
  | getter (name : Node .propertyName) (body : Node .functionBody) : Node .method
  | setter (name : Node .propertyName) (param : Node .parameter) (body : Node .functionBody) :
      Node .method
  -- expressions
  | array (elements : Node (.list (.option .argument))) : Node .expression
  | arrow (isAsync : Bool) (params : Node .parameters) (body : Node .arrowBody) :
      Node .expression
  | assign (target : Node .target) (value : Node .expression) : Node .expression
  | await (operand : Node .expression) : Node .expression
  | binary (left : Node .expression) (operator : BinaryOperator) (right : Node .expression) :
      Node .expression
  | call (callee : Node .subject) (arguments : Node (.list .argument)) : Node .expression
  | classExpression (name : Node (.option .boundName)) (heritage : Node (.option .expression))
      (elements : Node (.list .classElement)) : Node .expression
  | compoundAssign (target : Node .simpleTarget) (operator : CompoundOperator)
      (value : Node .expression) : Node .expression
  | computedMember (object : Node .subject) (key : Node .expression) : Node .expression
  | conditional (test consequent alternate : Node .expression) : Node .expression
  | functionExpression (isAsync isGenerator : Bool) (name : Node (.option .boundName))
      (params : Node .parameters) (body : Node .functionBody) : Node .expression
  | identifier (name : Node .usedName) : Node .expression
  | boolean (value : Bool) : Node .expression
  | infinity : Node .expression
  | null : Node .expression
  | number (value : Double) : Node .expression
  | regExp (pattern flags : String) : Node .expression
  | string (value : String) : Node .expression
  | new (callee : Node .expression) (arguments : Node (.list .argument)) : Node .expression
  | newTarget : Node .expression
  | object (properties : Node (.list .property)) : Node .expression
  | staticMember (object : Node .subject) (property : String) : Node .expression
  | template (tag : Node (.option .expression)) (parts : Node (.list .templatePart)) :
      Node .expression
  | thisValue : Node .expression
  | unary (operator : UnaryOperator) (operand : Node .expression) : Node .expression
  | update (leading : Bool) (operator : UpdateOperator) (operand : Node .simpleTarget) :
      Node .expression
  | yield (value : Node (.option .expression)) : Node .expression
  | yieldFrom (source : Node .expression) : Node .expression
  -- parts of expressions
  | superObject : Node .subject
  | subject (expression : Node .expression) : Node .subject
  | spread (expression : Node .expression) : Node .argument
  | argument (expression : Node .expression) : Node .argument
  | chunk (raw : String) : Node .templatePart
  | substitution (expression : Node .expression) : Node .templatePart
  | dataProperty (name : Node .propertyName) (value : Node .expression) : Node .property
  | shorthand (name : Node .usedName) : Node .property
  | methodProperty (method : Node .method) : Node .property
  | staticName (value : String) : Node .propertyName
  | computedName (expression : Node .expression) : Node .propertyName
  -- binding patterns
  | bindingName (name : Node .boundName) : Node .binding
  | arrayBinding (elements : Node (.list (.option .parameter))) (rest : Node (.option .binding)) :
      Node .binding
  | objectBinding (properties : Node (.list .bindingProperty)) : Node .binding
  | bindingWithDefault (binding : Node .binding) (init : Node .expression) : Node .parameter
  | parameter (binding : Node .binding) : Node .parameter
  | bindingShorthand (name : Node .boundName) (init : Node (.option .expression)) :
      Node .bindingProperty
  | bindingProperty (name : Node .propertyName) (binding : Node .parameter) :
      Node .bindingProperty
  -- assignment targets
  | targetName (name : Node .assignedName) : Node .simpleTarget
  | staticMemberTarget (object : Node .subject) (property : String) : Node .simpleTarget
  | computedMemberTarget (object : Node .subject) (key : Node .expression) : Node .simpleTarget
  | arrayTarget (elements : Node (.list (.option .targetElement)))
      (rest : Node (.option .target)) : Node .target
  | objectTarget (properties : Node (.list .targetProperty)) : Node .target
  | simpleTarget (target : Node .simpleTarget) : Node .target
  | targetWithDefault (target : Node .target) (init : Node .expression) : Node .targetElement
  | targetElement (target : Node .target) : Node .targetElement
  | targetShorthand (name : Node .assignedName) (init : Node (.option .expression)) :
      Node .targetProperty
  | targetProperty (name : Node .propertyName) (target : Node .targetElement) :
      Node .targetProperty

abbrev Program := Node .program
abbrev Statement := Node .statement
abbrev Expression := Node .expression

namespace Node

variable {c : Category}

/-! ## Sequences and optional children -/

def ofList : List (Node c) → Node (.list c)
  | [] => nil
  | node :: rest => cons node (ofList rest)

def ofOption : Option (Node c) → Node (.option c)
  | Option.none => none
  | Option.some node => some node

def isNil : Node (.list c) → Bool
  | nil => true
  | cons _ _ => false

end Node

end EcmaScribe
