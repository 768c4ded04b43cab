/-
# EcmaScribe.Fragment.Basic -- pieces of a script and the steps that lay them out

A `Fragment` is what one tree contributes to the script: lexemes, brackets around other
fragments, and the places where readable output may break a line or leave a space.
`steps` flattens it into the instructions for a layout.

An ancestor sometimes has to know how a fragment starts: an expression statement may
not start with a brace, nor with `function`, `class` or `let [`.  `leading` tells this for
the first thing written.  A bracketed fragment starts with its bracket and leads with
nothing; elsewhere the first child that is not blank decides.  The rules that introduce a
hazard mark their fragment with it.  In the same way `missingElse` tells of the last thing
written whether it is an `if` that an `else` after it would belong to.

A fragment may hold a bare `in` operator (`containsIn`), which the head of a `for` loop
would take for its own keyword.  `noIn` marks that place; the flag that `steps` passes
down puts the operator into parentheses there, unless a bracket protects it already.
-/
import EcmaScribe.Fragment.Lexeme

namespace EcmaScribe

set_option autoImplicit false

/-! ## Hazards -/

/-- A hazard that a rule attaches to its fragment. -/
inductive Mark
  | startsWithLet
  | startsWithCurly
  | startsWithLetBracket
  | startsWithFunctionOrClass
  | endsWithMissingElse
  deriving DecidableEq, Repr

/-- What the first thing that a fragment writes would be taken for. -/
structure Leading where
  startsWithLet : Bool := false
  startsWithCurly : Bool := false
  startsWithLetBracket : Bool := false
  startsWithFunctionOrClass : Bool := false
  deriving DecidableEq, Repr

namespace Leading

def none : Leading := ⟨false, false, false, false⟩

def mark (l : Leading) : Mark → Leading
  | .startsWithLet => { l with startsWithLet := true }
  | .startsWithCurly => { l with startsWithCurly := true }
  | .startsWithLetBracket => { l with startsWithLetBracket := true }
  | .startsWithFunctionOrClass => { l with startsWithFunctionOrClass := true }
  | .endsWithMissingElse => l

/-- An expression that leads with one of these is no expression statement. -/
def isStatementHazard (l : Leading) : Bool :=
  l.startsWithCurly || l.startsWithLetBracket || l.startsWithFunctionOrClass

end Leading

/-! ## Fragments -/

inductive Fragment
  | empty
  | lexeme (lexeme : Lexeme)
  | seq (children : List Fragment)
  | paren (inner : Fragment)
  | bracket (inner : Fragment)
  | brace (inner : Fragment)
  /-- Children on lines of their own; blank ones are left out. -/
  | lines (children : List Fragment)
  /-- The child on a new line, one level deeper. -/
  | indent (inner : Fragment)
  | commaSep (children : List Fragment)
  /-- The child where a bare `in` would be misread. -/
  | noIn (inner : Fragment)
  /-- The child with a bare `in` operator. -/
  | containsIn (inner : Fragment)
  | semicolon
  /-- A statement's end, which compact output may leave out before a brace. -/
  | optionalSemicolon
  | space
  | lineBreak
  | marked (mark : Mark) (inner : Fragment)
  deriving Repr

/-- One instruction to a layout, over tokens of type `τ`. -/
inductive Step (τ : Type)
  | put (token : τ)
  | optionalSemicolon
  | space
  | lineBreak
  | indent
  | dedent
  deriving DecidableEq, Repr

def Step.map {τ σ : Type} (f : τ → σ) : Step τ → Step σ
  | put token => .put (f token)
  | optionalSemicolon => .optionalSemicolon
  | space => .space
  | lineBreak => .lineBreak
  | indent => .indent
  | dedent => .dedent

namespace Fragment

/-! ## Building -/

def token (text : String) : Fragment := lexeme (.verbatim text)

/-- Braces on lines of their own around an indented body. -/
def braceLines (body : Fragment) : Fragment := brace (seq [indent body, lineBreak])

/-! ## Blank fragments -/

mutual

/-- Whether a fragment writes no token. -/
def isBlank : Fragment → Bool
  | empty | space | lineBreak => true
  | lexeme l => l.isBlank
  | seq children | lines children => allBlank children
  | indent inner | noIn inner | containsIn inner | marked _ inner => inner.isBlank
  | commaSep children => children.isEmpty
  | paren _ | bracket _ | brace _ | semicolon | optionalSemicolon => false

def allBlank : List Fragment → Bool
  | [] => true
  | f :: rest => f.isBlank && allBlank rest

end

/-- Braces around statements or class elements, each on a line of its own. -/
def block (children : List Fragment) : Fragment :=
  if allBlank children then brace empty else braceLines (lines children)

/-! ## Leading and trailing hazards -/

mutual

def leading : Fragment → Leading
  | lexeme l => { startsWithLet := l.isLet }
  | seq children => leadingFirst children
  | commaSep children => leadingHead children
  | noIn inner | containsIn inner => inner.leading
  | marked mark inner => inner.leading.mark mark
  | _ => .none

/-- The first child that writes something decides. -/
def leadingFirst : List Fragment → Leading
  | [] => .none
  | f :: rest => if f.isBlank then leadingFirst rest else f.leading

/-- The first child decides, be it blank. -/
def leadingHead : List Fragment → Leading
  | [] => .none
  | f :: _ => f.leading

end

mutual

/-- Whether the fragment ends in an `if` without an `else`. -/
def missingElse : Fragment → Bool
  | seq children => missingElseLast children
  | noIn inner | containsIn inner => inner.missingElse
  | marked mark inner => decide (mark = .endsWithMissingElse) || inner.missingElse
  | _ => false

/-- The last child that writes something decides. -/
def missingElseLast : List Fragment → Bool
  | [] => false
  | f :: rest => if allBlank rest then !f.isBlank && f.missingElse else missingElseLast rest

end

/-! ## Steps -/

mutual

/-- The instructions that write a fragment; `noIn` forbids a bare `in`. -/
def steps (noIn : Bool) : Fragment → List (Step Lexeme)
  | empty => []
  | lexeme l => [.put l]
  | seq children => stepsAll noIn children
  | paren inner => .put (.verbatim "(") :: inner.steps false ++ [.put (.verbatim ")")]
  | bracket inner => .put (.verbatim "[") :: inner.steps false ++ [.put (.verbatim "]")]
  | brace inner => .put (.verbatim "\x7b") :: inner.steps false ++ [.put (.verbatim "\x7d")]
  | lines children => stepsLines noIn true children
  | indent inner =>
      if inner.isBlank then [] else .indent :: .lineBreak :: inner.steps noIn ++ [.dedent]
  | commaSep children => stepsCommas noIn true children
  | .noIn inner => inner.steps true
  | containsIn inner =>
      if noIn then .put (.verbatim "(") :: inner.steps false ++ [.put (.verbatim ")")]
      else inner.steps false
  | semicolon => [.put (.verbatim ";")]
  | optionalSemicolon => [.optionalSemicolon]
  | space => [.space]
  | lineBreak => [.lineBreak]
  | marked _ inner => inner.steps noIn

def stepsAll (noIn : Bool) : List Fragment → List (Step Lexeme)
  | [] => []
  | f :: rest => f.steps noIn ++ stepsAll noIn rest

/-- Each child that is not blank, with breaks in between; `first` tells that none has been
written yet. -/
def stepsLines (noIn first : Bool) : List Fragment → List (Step Lexeme)
  | [] => []
  | f :: rest =>
      if f.isBlank then stepsLines noIn first rest
      else (if first then [] else [.lineBreak]) ++ f.steps noIn ++ stepsLines noIn false rest

/-- Every child, with commas in between. -/
def stepsCommas (noIn first : Bool) : List Fragment → List (Step Lexeme)
  | [] => []
  | f :: rest =>
      (if first then [] else [.put (.verbatim ","), .space]) ++ f.steps noIn ++
        stepsCommas noIn false rest

end

end Fragment

end EcmaScribe
