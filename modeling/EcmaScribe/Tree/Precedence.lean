/-
# EcmaScribe.Tree.Precedence -- how tightly a tree binds

`Node.precedence` gives the level of an expression; a place in the grammar asks for a
level, and an expression below it has to stand in parentheses.  A member access or a
tagged template on a call is itself a call, because a call chain goes on through
them: `a().b` may not follow `new`.

`Node.hasCallOnLeftSpine` looks for that call directly, along the leftmost chain.
-/
import EcmaScribe.Tree.Node

namespace EcmaScribe

set_option autoImplicit false

namespace Node

/-- The level of an expression.  A subject has the level of its expression; what is no
expression never needs parentheses. -/
def precedence {c : Category} : Node c → Precedence
  | assign .. | compoundAssign .. | yield .. | yieldFrom .. => .assignment
  | arrow .. | conditional .. => .conditional
  | binary _ operator _ => operator.precedence
  | await _ | unary .. => .prefixed
  | update leading _ _ => if leading then .prefixed else .postfixed
  | call .. => .call
  | new _ arguments => if arguments.isNil then .new else .member
  | newTarget => .member
  | staticMember base _ => if base.precedence = .call then .call else .member
  | computedMember base _ => if base.precedence = .call then .call else .member
  | template (some tag) _ => if tag.precedence = .call then .call else .taggedTemplate
  | subject expression => expression.precedence
  | _ => .primary

/-- Whether the leftmost member chain holds a call, as in `a().b`. -/
def hasCallOnLeftSpine {c : Category} : Node c → Bool
  | call .. => true
  | staticMember base _ => base.hasCallOnLeftSpine
  | computedMember base _ => base.hasCallOnLeftSpine
  | template (some tag) _ => tag.hasCallOnLeftSpine
  | subject expression => expression.hasCallOnLeftSpine
  | _ => false

end Node

end EcmaScribe
