/-
# EcmaScribe.Proofs.Tree.Opening -- the first two lexemes of an expression

Every expression is opened by what stands on its left: by a bracket, a keyword or an operator of
its own, or by an operand or target with the operator behind it.  No rule lets a statement end
there.
-/
import EcmaScribe.Proofs.Fragment.Opening

namespace EcmaScribe

set_option autoImplicit false

/-- What is proved of a tree that may start a statement. -/
def Category.Opens : (c : Category) → c.Output → Prop
  | .expression, f | .subject, f | .simpleTarget, f | .target, f | .usedName, f
  | .assignedName, f => f.Opened
  | .option c, f => ∀ g ∈ f, c.Opens g
  | _, _ => True

namespace Node

open Fragment

/-- **How an expression opens.** -/
theorem opened {c : Category} (n : Node c) : c.Opens n.fragment := by
  induction n with
  | none => exact fun f member => by cases member
  | some child ih =>
      intro f member
      cases member
      exact ih
  | usedName name => exact opened_lexeme _
  | assignedName name => exact opened_lexeme _
  | array elements => exact (headed_bracket _).opened
  | arrow isAsync params body =>
      show Opened (Fragment.seq (asyncHead isAsync ++
        [Fragment.spaced [arrowParameters params params.fragment, token "=>", body.fragment]]))
      refine Opened.arrow ?_ isAsync _
      unfold arrowParameters
      split
      · exact opened_lexeme _
      · cases params
        exact (headed_paren _).opened
  | assign target value ihTarget => exact ihTarget.spaced (by decide) _
  | await operand => exact (headed_keyword (by decide) _).opened
  | binary left operator right ihLeft => exact Opened.binary ihLeft left operator right _
  | call callee arguments ihCallee => exact (Opened.parenIf ihCallee _).called _
  | classExpression name heritage elements =>
      cases heritage <;> exact ((headed_class _ _ _).marked _).opened
  | compoundAssign target operator value ihTarget =>
      exact ihTarget.spaced (by cases operator <;> decide) _
  | computedMember base key ihBase => exact Opened.computedMember ihBase base _
  | conditional test consequent alternate ihTest =>
      exact (Opened.atLeast ihTest _ _).spaced (by decide) _
  | functionExpression isAsync isGenerator name params body =>
      exact ((headed_function _ _ _ _ _).marked _).opened
  | identifier name ih => exact ih
  | boolean value => cases value <;> exact (headed_token (by decide)).opened
  | infinity | number | regExp | string => exact opened_lexeme _
  | null | thisValue => exact opened_lexeme _
  | new callee arguments =>
      have head (f : Fragment) : Headed (Fragment.spaced [token "new", f]) :=
        headed_keyword (by decide) _
      cases arguments with
      | nil => exact (head _).opened
      | cons => exact ((head _).seq _).opened
  | newTarget => exact ((headed_token (by decide) : Headed (token "new")).seq _).opened
  | object properties => exact (headed_objectBraces _).opened
  | staticMember base property ih => exact Opened.staticMember ih base property
  | template tag parts ihTag =>
      cases tag with
      | none => exact (headed_template _).opened
      | some tag => exact (Opened.atLeast (ihTag _ rfl) .call tag).seq (by decide) _
  | unary operator operand => exact (headed_unary operator operand _).opened
  | update leading operator operand ih =>
      cases leading with
      | true => exact ((headed_token (by cases operator <;> decide)).seq _).opened
      | false => exact Opened.seq ih (by cases operator <;> decide) []
  | «yield» value =>
      cases value with
      | none => exact opened_lexeme _
      | some value => exact (headed_keyword (by decide) _).opened
  | yieldFrom source => exact ((headed_token (by decide) : Headed (token "yield")).seq _).opened
  | superObject => exact opened_lexeme _
  | subject expression ih => exact ih
  | targetName name ih => exact ih
  | staticMemberTarget base property ih => exact Opened.staticMember ih base property
  | computedMemberTarget base key ihBase => exact Opened.computedMember ihBase base _
  | arrayTarget elements rest => exact (headed_bracket _).opened
  | objectTarget properties => exact (headed_objectBraces _).opened
  | simpleTarget target ih => exact ih
  | _ => trivial

/-- An expression of one lexeme that is no string starts with no quote, unless the name of a
variable does. -/
theorem lexeme_of_fragment {expression : Expression} {l : Lexeme}
    (written : expression.fragment = .lexeme l) : l.startsNoString = true ∨
      (∃ value, expression = .string value) ∨
      ∃ name, expression = .identifier (.usedName name) ∧ l = .name .used name := by
  cases expression with
  | string value => exact .inr (.inl ⟨value, rfl⟩)
  | identifier name =>
      cases name with
      | usedName name =>
          cases written
          exact .inr (.inr ⟨name, rfl, rfl⟩)
  | boolean value =>
      cases value <;> cases written <;> exact .inl (by decide)
  | null | thisValue =>
      cases written
      exact .inl (by decide)
  | infinity | number | regExp =>
      cases written
      exact .inl rfl
  | «yield» value =>
      cases value with
      | none =>
          cases written
          exact .inl (by decide)
      | some value => cases written
  | classExpression _ heritage _ => cases heritage <;> cases written
  | computedMember base key =>
      have member : Fragment.computedMember base base.fragment key.fragment = .lexeme l := written
      unfold Fragment.computedMember markedIf at member
      split at member <;> cases member
  | binary _ operator _ => cases operator <;> cases written
  | new _ arguments => cases arguments <;> cases written
  | template tag _ => cases tag <;> cases written
  | unary operator _ => cases operator <;> cases written
  | update leading _ _ => cases leading <;> cases written
  | _ => cases written

end Node

end EcmaScribe
