/-
# EcmaScribe.Tree.Reference -- how a script uses its variables

Every name that refers to a variable is a reference, with the access it makes: a binding
and an assignment write, an expression reads, a compound assignment and an update do
both.  References are not resolved to declarations; they are listed in source order.

Accesses form a lattice in which reading and writing lie below doing both, and `join`
sums the accesses of one name up.
-/
import EcmaScribe.Tree.Walk

namespace EcmaScribe

set_option autoImplicit false

/-! ## Accesses -/

inductive Access
  | read
  | write
  | readWrite
  deriving DecidableEq, Repr

namespace Access

def text : Access → String
  | read => "read"
  | write => "write"
  | readWrite => "read-write"

def isRead : Access → Bool
  | read | readWrite => true
  | write => false

def isWrite : Access → Bool
  | write | readWrite => true
  | read => false

def isReadWrite : Access → Bool
  | readWrite => true
  | read | write => false

/-- The access that also reads. -/
def withReading : Access → Access
  | read => read
  | write | readWrite => readWrite

/-- The access that also writes. -/
def withWriting : Access → Access
  | write => write
  | read | readWrite => readWrite

/-- The least access that covers both. -/
def join : Access → Access → Access
  | read, read => read
  | write, write => write
  | _, _ => readWrite

end Access

/-- Where a reference stands. -/
inductive Usage
  | expression
  | binding
  | assignment
  | compoundAssignment
  | update
  deriving DecidableEq, Repr

def Usage.access : Usage → Access
  | expression => .read
  | binding | assignment => .write
  | compoundAssignment | update => .readWrite

/-! ## References -/

/-- An occurrence of a name.  Where it stands tells its access, which may be widened later. -/
structure Reference where
  usage : Usage
  name : String
  access : Access := usage.access
  deriving DecidableEq, Repr

namespace Reference

def withReading (r : Reference) : Reference := { r with access := r.access.withReading }

def withWriting (r : Reference) : Reference := { r with access := r.access.withWriting }

/-- The references that a node makes itself.  An assigned name is judged where it stands,
since there it is known whether it is read as well. -/
def ofNode {c : Category} : Node c → List Reference
  | .boundName name => [{ usage := .binding, name }]
  | .usedName name => [{ usage := .expression, name }]
  | .simpleTarget (.targetName (.assignedName name)) => [{ usage := .assignment, name }]
  | .targetShorthand (.assignedName name) _ => [{ usage := .assignment, name }]
  | .compoundAssign (.targetName (.assignedName name)) _ _ => [{ usage := .compoundAssignment, name }]
  | .update _ _ (.targetName (.assignedName name)) => [{ usage := .update, name }]
  | _ => []

end Reference

/-- The references of a tree in source order. -/
def Node.references {c : Category} (n : Node c) : List Reference := n.collect Reference.ofNode

namespace Reference

/-- The sum of all accesses to a name, if there are any. -/
def accessOf? (references : List Reference) (name : String) : Option Access :=
  match (references.filter (·.name = name)).map (·.access) with
  | [] => none
  | first :: rest => some (rest.foldl Access.join first)

/-- Put a reference into the group of its name, behind those of the group. -/
def insertGroup (r : Reference) :
    List (String × List Reference) → List (String × List Reference)
  | [] => [(r.name, [r])]
  | (name, group) :: rest =>
      if r.name = name then (name, group ++ [r]) :: rest else (name, group) :: insertGroup r rest

/-- The references of each name in order, the names in the order of their first use. -/
def byName (references : List Reference) : List (String × List Reference) :=
  references.foldl (fun groups r => insertGroup r groups) []

/-- One line for each reference: the name and its access. -/
def table (references : List Reference) : List Char :=
  references.flatMap fun r => r.name.toList ++ ' ' :: r.access.text.toList ++ ['\n']

end Reference

end EcmaScribe
