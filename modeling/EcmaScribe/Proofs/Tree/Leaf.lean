/-
# EcmaScribe.Proofs.Tree.Leaf -- the text that a tree carries

A tree consists of its shape and of text from the source: names, numbers, strings, regular
expressions, directives, template chunks.  `Node.leaves` lists that text.  What is promised
of a program is promised of its leaves, and what is proved of its script follows from them.

A name that introduces a variable is listed by the tree that writes it, since the name of a
default export that has none is not written.
-/
import EcmaScribe.Fragment.OfTree
import EcmaScribe.Tree.Walk

namespace EcmaScribe

set_option autoImplicit false

/-- A piece of source text in a tree. -/
inductive Leaf
  | name (role : NameRole) (text : String)
  /-- A property key, which may be written bare, as a number or as a string. -/
  | key (value : String)
  | number (value : Double)
  | string (value : String)
  | specifier (value : String)
  | regExp (pattern flags : String)
  | directive (raw : String)
  /-- The chunks and substitutions of a template. -/
  | template (parts : Node (.list .templatePart))

namespace Leaf

/-- The name of a binding. -/
def ofBinding : Node .boundName → Leaf
  | .boundName text => name .bound text

/-- The name of a declaration, if it is written. -/
def ofDeclared : Node .boundName → List Leaf
  | .boundName text => if text = Fragment.defaultExportName then [] else [name .bound text]

def ofOptional : Node (.option .boundName) → List Leaf
  | .none => []
  | .some binding => [ofBinding binding]

/-- The text that a node carries itself. -/
def ofNode {c : Category} : Node c → List Leaf
  | .usedName text => [name .used text]
  | .assignedName text => [name .assigned text]
  | .directive raw => [.directive raw]
  | .importNames default _ source => ofOptional default ++ [specifier source]
  | .importNamespace default space source =>
      ofOptional default ++ [ofBinding space, specifier source]
  | .exportAll source => [specifier source]
  | .exportFrom _ source => [specifier source]
  | .importSpecifier imported binding =>
      imported.toList.map (name .specifier) ++ [ofBinding binding]
  | .exportFromSpecifier inner outer =>
      name .specifier inner :: outer.toList.map (name .specifier)
  | .exportLocalSpecifier _ outer => outer.toList.map (name .specifier)
  | .breakTo label => label.toList.map (name .label)
  | .continueTo label => label.toList.map (name .label)
  | .labeled label _ => [name .label label]
  | .functionDeclaration _ _ declared _ _ => ofDeclared declared
  | .classDeclaration declared _ _ => ofDeclared declared
  | .functionExpression _ _ inner _ _ => ofOptional inner
  | .classExpression inner _ _ => ofOptional inner
  | .number value => [.number value]
  | .regExp pattern flags => [.regExp pattern flags]
  | .string value => [.string value]
  | .staticMember _ property => [name .member property]
  | .staticMemberTarget _ property => [name .member property]
  | .template _ parts => [.template parts]
  | .staticName value => [.key value]
  | .bindingName binding => [ofBinding binding]
  | .bindingShorthand binding _ => [ofBinding binding]
  | _ => []

/-- How a leaf is written.  A template is no single lexeme. -/
def lexeme? : Leaf → Option Lexeme
  | name role text => some (.name role text)
  | key value =>
      some <| if Text.isIdentifierName value.toList then .name .key value
        else match Double.ofKey? value.toList with
          | some double => .number double
          | none => .quoted value
  | number value => some (.number value)
  | string value => some (.string value)
  | specifier value => some (.quoted value)
  | regExp pattern flags => some (.regExp pattern flags)
  | directive raw => some (.directive raw)
  | template _ => none

end Leaf

/-- The source text of a tree, in the order of its nodes. -/
def Node.leaves {c : Category} (n : Node c) : List Leaf := n.collect Leaf.ofNode

namespace Node

/-- Leaves that are written as something. -/
def Written (leaf : Leaf) : Prop := ∀ l, leaf.lexeme? = Option.some l → l.isBlank = false

/-- All leaves but empty names are. -/
theorem written_of_named {leaf : Leaf} (named : ∀ role text, leaf = .name role text → text ≠ "") :
    Written leaf := by
  intro l written
  cases leaf with
  | name role text =>
      cases written
      simpa [Lexeme.isBlank] using named role text rfl
  | key value =>
      simp only [Leaf.lexeme?, Option.some.injEq] at written
      subst written
      split
      · rename_i bare
        have nonempty : value ≠ "" := by
          rintro rfl
          cases bare
        simpa [Lexeme.isBlank] using nonempty
      · split <;> rfl
  | _ => cases written <;> rfl

end Node

/-- A property key is one lexeme. -/
theorem Fragment.propertyKey_eq (value : String) {l : Lexeme}
    (h : (Leaf.key value).lexeme? = some l) : propertyKey value = .lexeme l := by
  simp only [Leaf.lexeme?, Option.some.injEq] at h
  subst h
  unfold propertyKey
  by_cases bare : Text.isIdentifierName value.toList = true
  · simp [bare]
  · cases Double.ofKey? value.toList <;> simp [bare]

end EcmaScribe
