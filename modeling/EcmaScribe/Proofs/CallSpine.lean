/-
# EcmaScribe.Proofs.CallSpine -- the two ways to find a call

What follows `new` may not be a call, nor a chain of members and tagged templates that starts
with one: `new a().b` would call `a` with `new`.  Two analyses find such a chain.
`hasCallOnLeftSpine` looks for the call, `precedence` hands its level on along the chain.

A `Link` makes a chain one step longer.  Neither analysis changes its answer along a link, both
find a call that stands alone, and neither finds one in an expression that is no chain.  That
is enough to know what they find (`iff_startsWithCall`): the chains of any length that start with
a call.
-/
import EcmaScribe.Fragment.OfTree
import Mathlib.Logic.Relation

namespace EcmaScribe

set_option autoImplicit false

theorem BinaryOperator.precedence_ne_call (operator : BinaryOperator) :
    operator.precedence ≠ .call := by
  cases operator <;> decide

namespace Node

open Fragment (token spaced atLeast parenIf)

/-! ## Chains -/

/-- The second expression is a member of the first, or a template that the first tags. -/
inductive Link (base : Expression) : Expression → Prop
  | staticMember (property : String) : Link base (.staticMember (.subject base) property)
  | computedMember (key : Expression) : Link base (.computedMember (.subject base) key)
  | template (parts : Node (.list .templatePart)) : Link base (.template (.some base) parts)

/-- A chain of any number of links starts with a call. -/
def StartsWithCall (e : Expression) : Prop :=
  ∃ callee arguments, Relation.ReflTransGen Link (.call callee arguments) e

variable {base e : Expression}

theorem Link.sizeOf_lt (h : Link base e) : sizeOf base < sizeOf e := by
  cases h <;> simp <;> omega

/-- What holds of calls, stays the same along links and holds of nothing else holds of the chains
that start with a call. -/
theorem iff_startsWithCall {P : Expression → Prop}
    (call : ∀ callee arguments, P (.call callee arguments))
    (link : ∀ {base e}, Link base e → (P e ↔ P base))
    (other : ∀ e, (∀ callee arguments, e ≠ .call callee arguments) → (∀ base, ¬ Link base e) → ¬ P e)
    (e : Expression) : P e ↔ e.StartsWithCall := by
  constructor
  · induction size : sizeOf e using Nat.strongRecOn generalizing e with
    | ind n ih =>
        intro holds
        by_cases isCall : ∃ callee arguments, e = .call callee arguments
        · obtain ⟨callee, arguments, rfl⟩ := isCall
          exact ⟨callee, arguments, .refl⟩
        by_cases isLink : ∃ base, Link base e
        · obtain ⟨base, last⟩ := isLink
          obtain ⟨callee, arguments, chain⟩ :=
            ih (sizeOf base) (size ▸ last.sizeOf_lt) base rfl ((link last).1 holds)
          exact ⟨callee, arguments, chain.tail last⟩
        · exact absurd holds (other e (by simpa using isCall) (by simpa using isLink))
  · rintro ⟨callee, arguments, chain⟩
    induction chain with
    | refl => exact call callee arguments
    | tail _ last ih => exact (link last).2 ih

/-! ## Both analyses -/

/-- A link keeps what both analyses say. -/
theorem Link.hasCallOnLeftSpine (h : Link base e) :
    e.hasCallOnLeftSpine = base.hasCallOnLeftSpine := by
  cases h <;> rfl

theorem Link.precedence (h : Link base e) : e.precedence = .call ↔ base.precedence = .call := by
  cases h <;> by_cases isCall : base.precedence = .call <;> simp [Node.precedence, isCall]

/-- An expression that is neither a call nor a link has no call for either analysis. -/
theorem no_call_of_no_link (noCall : ∀ callee arguments, e ≠ .call callee arguments)
    (noLink : ∀ base, ¬ Link base e) : e.hasCallOnLeftSpine = false ∧ e.precedence ≠ .call := by
  cases e with
  | call callee arguments => exact absurd rfl (noCall callee arguments)
  | staticMember object property =>
      cases object with
      | superObject => simp [hasCallOnLeftSpine, precedence]
      | subject object => exact absurd (.staticMember property) (noLink object)
  | computedMember object key =>
      cases object with
      | superObject => simp [hasCallOnLeftSpine, precedence]
      | subject object => exact absurd (.computedMember key) (noLink object)
  | template tag parts =>
      cases tag with
      | none => simp [hasCallOnLeftSpine, precedence]
      | some tag => exact absurd (.template parts) (noLink tag)
  | binary _ operator _ => exact ⟨rfl, operator.precedence_ne_call⟩
  | update leading => cases leading <;> simp [hasCallOnLeftSpine, precedence]
  | new _ arguments => cases arguments <;> simp [hasCallOnLeftSpine, precedence, isNil]
  | _ => simp [hasCallOnLeftSpine, precedence]

theorem hasCallOnLeftSpine_iff_startsWithCall (e : Expression) :
    e.hasCallOnLeftSpine = true ↔ e.StartsWithCall :=
  iff_startsWithCall (P := fun e => e.hasCallOnLeftSpine = true) (fun _ _ => rfl)
    (fun last => by rw [last.hasCallOnLeftSpine])
    (fun _ noCall noLink => by simp [(no_call_of_no_link noCall noLink).1]) e

theorem precedence_eq_call_iff_startsWithCall (e : Expression) :
    e.precedence = .call ↔ e.StartsWithCall :=
  iff_startsWithCall (P := fun e => e.precedence = .call) (fun _ _ => rfl) Link.precedence
    (fun _ noCall noLink => (no_call_of_no_link noCall noLink).2) e

/-- The search for a call adds no parentheses to those that the level asks for. -/
theorem parenIf_hasCallOnLeftSpine (e : Expression) (f : Fragment) :
    parenIf (e.hasCallOnLeftSpine || e.precedence < .member) f = atLeast .member e f := by
  have agree : e.hasCallOnLeftSpine = true → e.precedence < .member := fun found => by
    rw [(precedence_eq_call_iff_startsWithCall e).2
      ((hasCallOnLeftSpine_iff_startsWithCall e).1 found)]
    decide
  unfold parenIf atLeast
  by_cases loose : e.precedence < .member
  · simp [loose]
  · simp [loose, mt agree loose]

/-- **Both analyses find the same expressions**: the chains of members and tagged templates that
start with a call.  So the callee of `new` is written as its level alone asks for. -/
theorem hasCallOnLeftSpine_iff_precedence (e : Expression) :
    (e.hasCallOnLeftSpine = true ↔ e.precedence = .call) ∧
    (e.precedence = .call ↔
      ∃ callee arguments, Relation.ReflTransGen Link (.call callee arguments) e) ∧
    (new e nil).fragment = spaced [token "new", atLeast .member e e.fragment] ∧
    ∀ first more, (new e (cons first more)).fragment =
      .seq [spaced [token "new", atLeast .member e e.fragment],
        .paren (.commaSep (cons first more).fragment)] := by
  refine ⟨?_, precedence_eq_call_iff_startsWithCall e, ?_, fun first more => ?_⟩
  · rw [hasCallOnLeftSpine_iff_startsWithCall, precedence_eq_call_iff_startsWithCall]
  · exact congrArg (fun callee => spaced [token "new", callee]) (parenIf_hasCallOnLeftSpine e _)
  · exact congrArg (fun callee => Fragment.seq [spaced [token "new", callee],
      .paren (.commaSep (cons first more).fragment)]) (parenIf_hasCallOnLeftSpine e _)

end Node

end EcmaScribe
