/-
# EcmaScribe.Proofs.Expression.Reader -- reading operator expressions back

A reader for the tokens of expressions that are built by operators, in the manner of an
operator-precedence parser: a stack of frames, each of which waits for an operand, and a mode
that tells whether an operand is expected or held.  A sign after an operand first completes
the frames that bind tighter than it, then opens a frame of its own.

The reader takes one token at a time and never looks ahead.  Two places need a second look at
the stack instead: a parenthesis after `new` holds its arguments, and a `yield` finds out by
the next token whether it has an operand.  A token that fits nowhere is passed over.
-/
import EcmaScribe.Tree.Precedence
import EcmaScribe.Fragment.Lexeme

namespace EcmaScribe

set_option autoImplicit false

namespace Reader

/-! ## Signs -/

/-- How tightly the left operand of an operator has to bind. -/
def leftDemand (operator : BinaryOperator) : Nat :=
  if operator.isRightAssociative then operator.precedence.level + 1
  else operator.precedence.level

/-- How tightly the right operand of an operator has to bind. -/
def rightDemand (operator : BinaryOperator) : Nat :=
  if operator.isRightAssociative then operator.precedence.level
  else operator.precedence.level + 1

/-- A token after an operand. -/
inductive Sign
  | member | index | call
  | update (operator : UpdateOperator)
  | binary (operator : BinaryOperator)
  | question | colon
  | assign
  | compound (operator : CompoundOperator)
  | arrow
  | closeParen | closeBracket
  deriving DecidableEq

namespace Sign

def text : Sign → String
  | member => "."
  | index => "["
  | call => "("
  | update operator => operator.text
  | binary operator => operator.text
  | question => "?"
  | colon => ":"
  | assign => "="
  | compound operator => operator.text
  | arrow => "=>"
  | closeParen => ")"
  | closeBracket => "]"

def all : List Sign :=
  [member, index, call, question, colon, assign, arrow, closeParen, closeBracket] ++
    UpdateOperator.all.map update ++ BinaryOperator.all.map binary ++
    CompoundOperator.all.map compound

def ofText? (text : List Char) : Option Sign := all.find? fun sign => sign.text.toList = text

theorem ofText?_text (sign : Sign) : ofText? sign.text.toList = some sign := by
  cases sign with
  | update operator => cases operator <;> decide
  | binary operator => cases operator <;> decide
  | compound operator => cases operator <;> decide
  | _ => decide

/-- How tightly a sign binds.  Signs that close a bracket bind most loosely. -/
def level : Sign → Nat
  | member | index => Precedence.member.level
  | call => Precedence.call.level
  | update _ => Precedence.postfixed.level
  | binary operator => operator.precedence.level
  | question => Precedence.conditional.level
  | assign | compound _ => Precedence.assignment.level
  | arrow => Precedence.primary.level
  | colon | closeParen | closeBracket => Precedence.sequence.level

/-- How tightly the operand before a sign has to bind.  No operand but a name stands before
an arrow. -/
def demand : Sign → Nat
  | member | index | call | update _ | assign | compound _ => Precedence.call.level
  | binary operator => leftDemand operator
  | question => Precedence.logicalOr.level
  | arrow => Precedence.primary.level + 1
  | colon | closeParen | closeBracket => Precedence.sequence.level

end Sign

/-- A token where an operand is expected, if it is no name. -/
inductive Start
  | paren | new
  | unary (operator : UnaryOperator)
  | update (operator : UpdateOperator)
  | await | yield | super
  | this | null
  | boolean (value : Bool)
  | spread
  /-- The point of `new.target`. -/
  | point
  /-- The star of `yield*`. -/
  | star
  deriving DecidableEq

namespace Start

def text : Start → String
  | paren => "("
  | new => "new"
  | unary operator => operator.text
  | update operator => operator.text
  | await => "await"
  | yield => "yield"
  | super => "super"
  | this => "this"
  | null => "null"
  | boolean value => if value then "true" else "false"
  | spread => "..."
  | point => "."
  | star => "*"

def all : List Start :=
  [paren, new, await, yield, super, this, null, boolean true, boolean false, spread, point, star] ++
    UnaryOperator.all.map unary ++ UpdateOperator.all.map update

def ofText? (text : List Char) : Option Start := all.find? fun start => start.text.toList = text

theorem ofText?_text (start : Start) : ofText? start.text.toList = some start := by
  cases start with
  | unary operator => cases operator <;> decide
  | update operator => cases operator <;> decide
  | boolean value => cases value <;> decide
  | _ => decide

end Start

/-! ## Operands -/

/-- The assignment target that is written like an expression. -/
def target? : Expression → Option (Node .simpleTarget)
  | .identifier (.usedName name) => some (.targetName (.assignedName name))
  | .staticMember base property => some (.staticMemberTarget base property)
  | .computedMember base key => some (.computedMemberTarget base key)
  | _ => none

/-- The expression that is written like an assignment target. -/
def ofTarget : Node .simpleTarget → Expression
  | .targetName (.assignedName name) => .identifier (.usedName name)
  | .staticMemberTarget base property => .staticMember base property
  | .computedMemberTarget base key => .computedMember base key

theorem target?_ofTarget (target : Node .simpleTarget) : target? (ofTarget target) = some target := by
  cases target with
  | targetName name => cases name; rfl
  | staticMemberTarget base property => rfl
  | computedMemberTarget base key => rfl

/-- The variable that an expression is. -/
def variableName? : Expression → Option String
  | .identifier (.usedName name) => some name
  | _ => none

/-- The arrow function of one plain parameter with an expression for its body. -/
def arrowOf (name : String) (body : Expression) : Expression :=
  .arrow false
    (.parameters (.cons (.parameter (.bindingName (.boundName name))) .nil) .none)
    (.arrowResult body)

/-- What is called. -/
inductive Callee
  | call (callee : Node .subject)
  | new (callee : Expression)

def Callee.apply : Callee → List (Node .argument) → Expression
  | call callee, arguments => .call callee (Node.ofList arguments)
  | new callee, arguments => .new callee (Node.ofList arguments)

def argumentOf (isSpread : Bool) (e : Expression) : Node .argument :=
  if isSpread then .spread e else .argument e

/-! ## Frames -/

inductive Frame
  -- brackets, which a sign of their own closes
  | paren
  | index (base : Node .subject)
  | arguments (callee : Callee) (done : List (Node .argument)) (isSpread : Bool)
  | consequent (test : Expression)
  -- operators with an operand outstanding
  | new
  | unary (operator : UnaryOperator)
  | update (operator : UpdateOperator)
  | await | yield | yieldFrom
  | binary (left : Expression) (operator : BinaryOperator)
  | alternate (test value : Expression)
  | assign (target : Node .simpleTarget)
  | compound (target : Node .simpleTarget) (operator : CompoundOperator)
  | arrow (name : String)

namespace Frame

def isBracket : Frame → Bool
  | paren | index _ | arguments .. | consequent _ => true
  | _ => false

/-- How tightly the operand of a frame has to bind. -/
def floor : Frame → Nat
  | paren | index _ => Precedence.sequence.level
  | arguments .. | consequent _ | alternate .. | assign _ | compound .. | arrow _ | yield
  | yieldFrom => Precedence.assignment.level
  | new => Precedence.member.level
  | unary _ | await => Precedence.prefixed.level
  | update _ => Precedence.call.level
  | binary _ operator => rightDemand operator

/-- The expression of an operator with its operand. -/
def complete : Frame → Expression → Expression
  | new, e => .new e .nil
  | unary operator, e => .unary operator e
  | update operator, e =>
      match target? e with
      | some target => .update true operator target
      | none => e
  | await, e => .await e
  | yield, e => .yield (.some e)
  | yieldFrom, e => .yieldFrom e
  | binary left operator, e => .binary left operator e
  | alternate test value, e => .conditional test value e
  | assign target, e => .assign (.simpleTarget target) e
  | compound target operator, e => .compoundAssign target operator e
  | arrow name, e => arrowOf name e
  | paren, e | index _, e | arguments .., e | consequent _, e => e

end Frame

/-- Complete the frames that bind tighter than a level. -/
def reduce (level : Nat) : List Frame → Expression → List Frame × Expression
  | [], e => ([], e)
  | frame :: below, e =>
      if !frame.isBracket && decide (level < frame.floor) then reduce level below (frame.complete e)
      else (frame :: below, e)

/-! ## Reading -/

inductive Mode
  | expects
  | holds (operand : Node .subject)
  /-- After the point of a member access. -/
  | property (base : Node .subject)
  /-- After the point of `new.target`. -/
  | metaProperty

end Reader

structure Reader where
  stack : List Reader.Frame
  mode : Reader.Mode

namespace Reader

def holding (stack : List Frame) (e : Expression) : Reader := ⟨stack, .holds (.subject e)⟩

def expecting (stack : List Frame) : Reader := ⟨stack, .expects⟩

/-- A sign after an expression, all tighter frames being complete. -/
def shift (sign : Sign) (stack : List Frame) (e : Expression) : Reader :=
  match sign with
  | .member => ⟨stack, .property (.subject e)⟩
  | .index => expecting (.index (.subject e) :: stack)
  | .call => expecting (.arguments (.call (.subject e)) [] false :: stack)
  | .update operator =>
      match target? e with
      | some target => holding stack (.update false operator target)
      | none => holding stack e
  | .binary operator =>
      match operator, stack with
      | .sequence, .arguments callee done isSpread :: below =>
          expecting (.arguments callee (done ++ [argumentOf isSpread e]) false :: below)
      | operator, stack => expecting (.binary e operator :: stack)
  | .question => expecting (.consequent e :: stack)
  | .colon =>
      match stack with
      | .consequent test :: below => expecting (.alternate test e :: below)
      | stack => holding stack e
  | .assign =>
      match target? e with
      | some target => expecting (.assign target :: stack)
      | none => holding stack e
  | .compound operator =>
      match target? e with
      | some target => expecting (.compound target operator :: stack)
      | none => holding stack e
  | .arrow =>
      match variableName? e with
      | some name => expecting (.arrow name :: stack)
      | none => holding stack e
  | .closeParen =>
      match stack with
      | .paren :: below => holding below e
      | .arguments callee done isSpread :: below =>
          holding below (callee.apply (done ++ [argumentOf isSpread e]))
      | stack => holding stack e
  | .closeBracket =>
      match stack with
      | .index base :: below => holding below (.computedMember base e)
      | stack => holding stack e

/-- A sign after an expression. -/
def after (sign : Sign) (stack : List Frame) (e : Expression) : Reader :=
  match sign, stack with
  | .call, .new :: below => expecting (.arguments (.new e) [] false :: below)
  | sign, stack => shift sign (reduce sign.level stack e).1 (reduce sign.level stack e).2

/-- A sign after `super`. -/
def afterSuper (sign : Sign) (stack : List Frame) : Reader :=
  match sign with
  | .member => ⟨stack, .property .superObject⟩
  | .index => expecting (.index .superObject :: stack)
  | .call => expecting (.arguments (.call .superObject) [] false :: stack)
  | _ => ⟨stack, .holds .superObject⟩

/-- The start of an operand. -/
def begin (start : Start) (stack : List Frame) : Reader :=
  match start with
  | .paren => expecting (.paren :: stack)
  | .new => expecting (.new :: stack)
  | .unary operator => expecting (.unary operator :: stack)
  | .update operator => expecting (.update operator :: stack)
  | .await => expecting (.await :: stack)
  | .yield => expecting (.yield :: stack)
  | .super => ⟨stack, .holds .superObject⟩
  | .this => holding stack .thisValue
  | .null => holding stack .null
  | .boolean value => holding stack (.boolean value)
  | .spread =>
      match stack with
      | .arguments callee done _ :: below => expecting (.arguments callee done true :: below)
      | stack => expecting stack
  | .point =>
      match stack with
      | .new :: below => ⟨below, .metaProperty⟩
      | stack => expecting stack
  | .star =>
      match stack with
      | .yield :: below => expecting (.yieldFrom :: below)
      | stack => expecting stack

/-- A sign where an operand could stand: the `yield` before it has none, or there are no
arguments. -/
def without (sign : Sign) (stack : List Frame) : Reader :=
  match stack with
  | .yield :: below => after sign below (.yield .none)
  | .arguments callee [] false :: below =>
      if sign = .closeParen then holding below (callee.apply []) else expecting stack
  | stack => expecting stack

def step (r : Reader) : Token → Reader
  | .number _ => r
  | .text text =>
      match r.mode with
      | .holds operand =>
          match Sign.ofText? text, operand with
          | some sign, .subject e => after sign r.stack e
          | some sign, .superObject => afterSuper sign r.stack
          | none, _ => r
      | .property base => holding r.stack (.staticMember base (String.ofList text))
      | .metaProperty => holding r.stack .newTarget
      | .expects =>
          match Start.ofText? text with
          | some start => begin start r.stack
          | none =>
              match Sign.ofText? text with
              | some sign => without sign r.stack
              | none => holding r.stack (.identifier (.usedName (String.ofList text)))

def run (r : Reader) (tokens : List Token) : Reader := tokens.foldl step r

end Reader

end EcmaScribe
