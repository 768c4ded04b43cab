/-
# EcmaScribe.Tree.Build -- trees by hand

Short forms of common trees: variables by their names, calls with plain arguments,
declarations of one variable, templates from chunks and expressions.
-/
import EcmaScribe.Tree.Node

namespace EcmaScribe.Build

set_option autoImplicit false

/-! ## Expressions -/

def reference (name : String) : Expression := .identifier (.usedName name)

def arguments (values : List Expression) : Node (.list .argument) :=
  .ofList (values.map .argument)

def call (callee : Expression) (values : List Expression) : Expression :=
  .call (.subject callee) (arguments values)

def construct (callee : Expression) (values : List Expression) : Expression :=
  .new callee (arguments values)

def member (object : Expression) (property : String) : Expression :=
  .staticMember (.subject object) property

def element (object key : Expression) : Expression := .computedMember (.subject object) key

/-- `name = value` -/
def assign (name : String) (value : Expression) : Expression :=
  .assign (.simpleTarget (.targetName (.assignedName name))) value

/-- Chunks with an expression before each but the first, while there are any. -/
def templateRest : List String → List Expression → List (Node .templatePart)
  | [], _ => []
  | chunk :: chunks, [] => .chunk chunk :: templateRest chunks []
  | chunk :: chunks, value :: values =>
      .substitution value :: .chunk chunk :: templateRest chunks values

def templateParts (chunks : List String) (values : List Expression) :
    Node (.list .templatePart) :=
  .ofList <| match chunks with
    | [] => []
    | chunk :: chunks => .chunk chunk :: templateRest chunks values

def template (chunks : List String) (values : List Expression) : Expression :=
  .template .none (templateParts chunks values)

def taggedTemplate (tag : Expression) (chunks : List String) (values : List Expression) :
    Expression :=
  .template (.some tag) (templateParts chunks values)

/-- A function without name and parameters. -/
def function (body : List Statement) : Expression :=
  .functionExpression false false .none (.parameters .nil .none)
    (.functionBody .nil (.ofList body))

def property (name : String) (value : Expression) : Node .property :=
  .dataProperty (.staticName name) value

def object (properties : List (String × Expression)) : Expression :=
  .object (.ofList (properties.map fun (name, value) => property name value))

/-! ## Statements -/

def block (statements : List Statement) : Statement :=
  .blockStatement (.block (.ofList statements))

def return? (value : Option Expression) : Statement := .returnValue (.ofOption value)

/-- A declaration of one variable. -/
def declare (kind : DeclarationKind) (name : String) (init : Option Expression) : Statement :=
  .declare (.variableDeclaration kind
    (.cons (.declarator (.bindingName (.boundName name)) (.ofOption init)) .nil))

def ifElse (test : Expression) (consequent : Statement) (alternate : Option Statement) :
    Statement :=
  .ifElse test consequent (.ofOption alternate)

/-! ## Programs -/

def script (directives : List String) (statements : List Statement) : Program :=
  .script (.ofList (directives.map .directive)) (.ofList statements)

def moduleRoot (statements : List Statement) : Program :=
  .moduleRoot .nil (.ofList (statements.map .itemStatement))

end EcmaScribe.Build
