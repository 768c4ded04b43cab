/-
# EcmaScribe.Fragment.Phrase -- the recurring phrases of a script

Shapes that many trees share: parts with optional spaces in between, statements with
their semicolon, lists in brackets, heads of functions and classes.  An expression in a
place that asks for a level is put into parentheses by `atLeast` when it binds more
loosely.
-/
import EcmaScribe.Fragment.Basic
import EcmaScribe.Number.Key
import EcmaScribe.Tree.Precedence

namespace EcmaScribe

set_option autoImplicit false

namespace Fragment

/-! ## Parts in a row -/

/-- Parts with an optional space between each two. -/
def spaced : List Fragment → Fragment
  | [] => empty
  | f :: rest => seq (f :: rest.flatMap fun g => [space, g])

/-- A phrase that ends a statement. -/
def statement (phrase : Fragment) : Fragment := seq [phrase, optionalSemicolon]

/-- An expression where the grammar asks for a level. -/
def atLeast (required : Precedence) (node : Expression) (f : Fragment) : Fragment :=
  if node.precedence < required then paren f else f

def parenIf (condition : Bool) (f : Fragment) : Fragment := if condition then paren f else f

def markedIf (condition : Bool) (mark : Mark) (f : Fragment) : Fragment :=
  if condition then marked mark f else f

/-- `target = value`, the value at the level of an assignment. -/
def defaulted (target : Fragment) (node : Expression) (value : Fragment) : Fragment :=
  spaced [target, token "=", atLeast .assignment node value]

/-- `name: value`. -/
def keyed (name value : Fragment) : Fragment := seq [name, token ":", space, value]

/-- `...f`. -/
def rest (f : Fragment) : Fragment := seq [token "...", f]

/-! ## Lists -/

/-- Elements with holes.  The comma after the last element is optional in the script's
grammar, so a hole at the end needs one of its own. -/
def elements (items : List (Option Fragment)) : Fragment :=
  let list := commaSep (items.map (·.getD empty))
  match items.getLast? with
  | some none => seq [list, token ","]
  | _ => list

/-- The elements of a pattern; a rest element leaves no hole at the end. -/
def arrayPattern (items : List (Option Fragment)) (remainder : Option Fragment) : Fragment :=
  bracket (elements (items ++ remainder.toList.map fun f => some (rest f)))

/-- Properties in braces.  At the start of a statement the brace would open a block. -/
def objectBraces (properties : List Fragment) : Fragment :=
  marked .startsWithCurly (brace (commaSep properties))

/-! ## Members -/

/-- The object of a member access.  A call chain goes on without parentheses. -/
def memberObject (object : Node .subject) (f : Fragment) : Fragment :=
  parenIf (object.precedence ≠ .call && object.precedence < .member) f

def staticMember (object : Node .subject) (f : Fragment) (property : String) : Fragment :=
  seq [memberObject object f, token ".", lexeme (.name .member property)]

/-- Whether an object is the variable `let`. -/
def isBareLet : Node .subject → Bool
  | .subject (.identifier (.usedName name)) => name = "let"
  | _ => false

def computedMember (object : Node .subject) (f key : Fragment) : Fragment :=
  markedIf (isBareLet object) .startsWithLetBracket (seq [memberObject object f, bracket key])

/-! ## Functions and classes -/

/-- The name of a default export that has none. -/
def defaultExportName : String := "*default*"

/-- The written name of a declaration. -/
def declaredName (name : Node .boundName) (f : Fragment) : Option Fragment :=
  match name with
  | .boundName text => if text = defaultExportName then none else some f

def asyncHead (isAsync : Bool) : List Fragment :=
  if isAsync then [token "async", space] else []

def generatorStar (isGenerator : Bool) : List Fragment :=
  if isGenerator then [token "*"] else []

def function (isAsync isGenerator : Bool) (name : Option Fragment) (params body : Fragment) :
    Fragment :=
  seq (asyncHead isAsync ++ token "function" :: generatorStar isGenerator ++
    name.toList.flatMap (fun name => [space, name]) ++ [params, space, body])

def method (isAsync isGenerator : Bool) (name params body : Fragment) : Fragment :=
  seq (asyncHead isAsync ++ generatorStar isGenerator ++ [name, params, space, body])

/-- `get name() body` and `set name(param) body`. -/
def accessor (keyword : String) (name param body : Fragment) : Fragment :=
  seq [token keyword, space, name, paren param, space, body]

def parameterList (items : List Fragment) (remainder : Option Fragment) : Fragment :=
  paren (commaSep (items ++ remainder.toList.map rest))

/-- The binding of a parameter list that is one plain name. -/
def soleName? : Node .parameters → Option String
  | .parameters (.cons (.parameter (.bindingName (.boundName name))) .nil) .none => some name
  | _ => none

/-- An arrow function writes a single plain name without parentheses. -/
def arrowParameters (params : Node .parameters) (f : Fragment) : Fragment :=
  match soleName? params with
  | some name => lexeme (.name .bound name)
  | none => f

def class_ (name heritage : Option Fragment) (elements : List Fragment) : Fragment :=
  spaced (token "class" :: name.toList ++
    heritage.toList.flatMap (fun f => [token "extends", f]) ++ [block elements])

/-! ## Expressions -/

/-- The operands of an operator.  The side on which the operator does not group needs
parentheses at the operator's own level.  The left operand of `**` must not be a unary
expression. -/
def binaryOperands (left : Expression) (operator : BinaryOperator) (right : Expression)
    (l r : Fragment) : Fragment × Fragment :=
  let level := operator.precedence
  if operator.isRightAssociative then
    (parenIf (left.precedence ≤ level || isUnary left) l, atLeast level right r)
  else (atLeast level left l, parenIf (right.precedence ≤ level) r)
where
  isUnary : Expression → Bool
    | .unary .. | .await _ => true
    | _ => false

def binary (left : Expression) (operator : BinaryOperator) (right : Expression)
    (l r : Fragment) : Fragment :=
  let (l, r) := binaryOperands left operator right l r
  match operator with
  | .sequence => seq [l, token operator.text, space, r]
  | .isIn => containsIn (spaced [l, token operator.text, r])
  | _ => spaced [l, token operator.text, r]

def unary (operator : UnaryOperator) (operand : Expression) (f : Fragment) : Fragment :=
  let f := atLeast .prefixed operand f
  if operator.isWord then spaced [token operator.text, f] else seq [token operator.text, f]

/-- A piece of a template: text as it stands in the source, or a substitution. -/
inductive TemplatePiece
  | text (raw : String)
  | code (f : Fragment)

namespace TemplatePiece

def isText : TemplatePiece → Bool
  | text _ => true
  | code _ => false

/-- The pieces after `done` chunks, of `total` in all.  Every chunk but the first closes a
substitution, and every one but the last opens one. -/
def fragments (total : Nat) : Nat → List TemplatePiece → List Fragment
  | _, [] => []
  | done, text raw :: pieces =>
      lexeme (.chunk (decide (0 < done)) (decide (done + 1 < total)) raw) ::
        fragments total (done + 1) pieces
  | done, code f :: pieces => f :: fragments total done pieces

end TemplatePiece

def template (tag : Option Fragment) (pieces : List TemplatePiece) : Fragment :=
  seq (tag.toList ++ token "\x60" ::
    TemplatePiece.fragments (pieces.countP (·.isText)) 0 pieces ++ [token "\x60"])

/-- A property key: a bare name, the literal of a number, or a string. -/
def propertyKey (key : String) : Fragment :=
  if Text.isIdentifierName key.toList then lexeme (.name .key key)
  else match Double.ofKey? key.toList with
    | some value => lexeme (.number value)
    | none => lexeme (.quoted key)

/-! ## Imports and exports -/

def specifierName (name : String) : Fragment := lexeme (.name .specifier name)

/-- `name as other`, or the other name alone. -/
def renamed (name : Option Fragment) (other : Fragment) : Fragment :=
  match name with
  | some name => spaced [name, token "as", other]
  | none => other

/-- `from "specifier"`. -/
def fromClause (specifier : String) : List Fragment :=
  [token "from", lexeme (.quoted specifier)]

/-- An import of names; with no names at all the module is only run. -/
def importNames (default : Option Fragment) (named : List Fragment) (specifier : String) :
    Fragment :=
  let clause := default.toList ++ if named.isEmpty then [] else [brace (commaSep named)]
  statement (spaced (token "import" ::
    if clause.isEmpty then [lexeme (.quoted specifier)]
    else commaSep clause :: fromClause specifier))

def importNamespace (default : Option Fragment) (name : Fragment) (specifier : String) :
    Fragment :=
  let star := spaced [token "*", token "as", name]
  let clause := match default with
    | some default => commaSep [default, star]
    | none => star
  statement (spaced (token "import" :: clause :: fromClause specifier))

end Fragment

end EcmaScribe
