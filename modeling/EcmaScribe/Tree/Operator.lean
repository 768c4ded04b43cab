/-
# EcmaScribe.Tree.Operator -- the operators of the tree

Each class of operators is an enumeration, and `text` spells a member as source
text.  The same spelling is the member's name in the interchange format, so
`all` lists a class in the order in which a diagnostic names it.
-/

namespace EcmaScribe

set_option autoImplicit false

/-- How tightly an expression binds, from loosest to tightest.

Yield shares a level with assignment, and arrow functions with conditionals. -/
inductive Precedence
  | sequence | assignment | conditional | logicalOr | logicalAnd
  | bitwiseOr | bitwiseXor | bitwiseAnd | equality | relational
  | shift | additive | multiplicative | exponential
  | prefixed | postfixed | new | call | taggedTemplate | member | primary
  deriving DecidableEq, Repr

namespace Precedence

/-- The position of a level, counted from the loosest. -/
def level (p : Precedence) : Nat := p.ctorIdx

instance : LT Precedence := ⟨fun p q => p.level < q.level⟩
instance : LE Precedence := ⟨fun p q => p.level ≤ q.level⟩

instance (p q : Precedence) : Decidable (p < q) := inferInstanceAs (Decidable (p.level < q.level))
instance (p q : Precedence) : Decidable (p ≤ q) := inferInstanceAs (Decidable (p.level ≤ q.level))

end Precedence

/-! ## Binary operators -/

inductive BinaryOperator
  | sequence | logicalOr | logicalAnd | bitwiseOr | bitwiseXor | bitwiseAnd
  | equal | notEqual | strictEqual | strictNotEqual
  | lessThan | lessThanEqual | greaterThan | greaterThanEqual | isIn | instanceOf
  | left | right | unsignedRight | plus | minus | mul | div | rem | exp
  deriving DecidableEq, Repr

namespace BinaryOperator

def text : BinaryOperator → String
  | sequence => ","
  | logicalOr => "||"
  | logicalAnd => "&&"
  | bitwiseOr => "|"
  | bitwiseXor => "^"
  | bitwiseAnd => "&"
  | equal => "=="
  | notEqual => "!="
  | strictEqual => "==="
  | strictNotEqual => "!=="
  | lessThan => "<"
  | lessThanEqual => "<="
  | greaterThan => ">"
  | greaterThanEqual => ">="
  | isIn => "in"
  | instanceOf => "instanceof"
  | left => "<<"
  | right => ">>"
  | unsignedRight => ">>>"
  | plus => "+"
  | minus => "-"
  | mul => "*"
  | div => "/"
  | rem => "%"
  | exp => "**"

def all : List BinaryOperator :=
  [sequence, logicalOr, logicalAnd, bitwiseOr, bitwiseXor, bitwiseAnd,
    equal, notEqual, strictEqual, strictNotEqual,
    lessThan, lessThanEqual, greaterThan, greaterThanEqual, isIn, instanceOf,
    left, right, unsignedRight, plus, minus, mul, div, rem, exp]

def precedence : BinaryOperator → Precedence
  | sequence => .sequence
  | logicalOr => .logicalOr
  | logicalAnd => .logicalAnd
  | bitwiseOr => .bitwiseOr
  | bitwiseXor => .bitwiseXor
  | bitwiseAnd => .bitwiseAnd
  | equal | notEqual | strictEqual | strictNotEqual => .equality
  | lessThan | lessThanEqual | greaterThan | greaterThanEqual | isIn | instanceOf => .relational
  | left | right | unsignedRight => .shift
  | plus | minus => .additive
  | mul | div | rem => .multiplicative
  | exp => .exponential

/-- Exponentiation alone groups to the right. -/
def isRightAssociative : BinaryOperator → Bool
  | exp => true
  | _ => false

theorem mem_all (op : BinaryOperator) : op ∈ all := by cases op <;> decide

end BinaryOperator

/-! ## Operators with one operand -/

inductive UnaryOperator
  | plus | minus | logicalNot | bitNot | typeOf | void | delete
  deriving DecidableEq, Repr

namespace UnaryOperator

def text : UnaryOperator → String
  | plus => "+"
  | minus => "-"
  | logicalNot => "!"
  | bitNot => "~"
  | typeOf => "typeof"
  | void => "void"
  | delete => "delete"

def all : List UnaryOperator := [plus, minus, logicalNot, bitNot, typeOf, void, delete]

/-- Operators that are words keep a space before their operand. -/
def isWord : UnaryOperator → Bool
  | typeOf | void | delete => true
  | _ => false

theorem mem_all (op : UnaryOperator) : op ∈ all := by cases op <;> decide

end UnaryOperator

inductive UpdateOperator
  | increment | decrement
  deriving DecidableEq, Repr

namespace UpdateOperator

def text : UpdateOperator → String
  | increment => "++"
  | decrement => "--"

def all : List UpdateOperator := [increment, decrement]

theorem mem_all (op : UpdateOperator) : op ∈ all := by cases op <;> decide

end UpdateOperator

/-! ## Assignment operators and declaration kinds -/

inductive CompoundOperator
  | plus | minus | mul | div | rem | exp | left | right | unsignedRight
  | bitwiseOr | bitwiseXor | bitwiseAnd
  deriving DecidableEq, Repr

namespace CompoundOperator

def text : CompoundOperator → String
  | plus => "+="
  | minus => "-="
  | mul => "*="
  | div => "/="
  | rem => "%="
  | exp => "**="
  | left => "<<="
  | right => ">>="
  | unsignedRight => ">>>="
  | bitwiseOr => "|="
  | bitwiseXor => "^="
  | bitwiseAnd => "&="

def all : List CompoundOperator :=
  [plus, minus, mul, div, rem, exp, left, right, unsignedRight, bitwiseOr, bitwiseXor, bitwiseAnd]

theorem mem_all (op : CompoundOperator) : op ∈ all := by cases op <;> decide

end CompoundOperator

inductive DeclarationKind
  | var | let_ | const
  deriving DecidableEq, Repr

namespace DeclarationKind

def text : DeclarationKind → String
  | var => "var"
  | let_ => "let"
  | const => "const"

def all : List DeclarationKind := [var, let_, const]

theorem mem_all (kind : DeclarationKind) : kind ∈ all := by cases kind <;> decide

end DeclarationKind

end EcmaScribe
