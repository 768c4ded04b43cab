/-
# EcmaScribe.Proofs.Expression.Operation -- operator expressions can be read back

`IdentifierClass.Operation` singles out the expressions that are built by operators alone:
no literal with text of its own, no function body, no pattern.  What such an expression
writes is read back by `Reader`, so two of them that write the same tokens are the same.

The induction runs over the ways to build such an expression; what is shown of it is that the
reader gets it back at the level of its own precedence.
-/
import EcmaScribe.Proofs.Expression.Reads

namespace EcmaScribe

set_option autoImplicit false

/-- Expressions built by operators, calls and member accesses from names and keywords, and
the parts that they consist of. -/
inductive IdentifierClass.Operation (k : IdentifierClass) : {c : Category} → Node c → Prop
  | identifier {name : String} (isIdentifier : k.IsIdentifier name) :
      Operation k (.identifier (.usedName name))
  | thisValue : Operation k .thisValue
  | null : Operation k .null
  | boolean (value : Bool) : Operation k (.boolean value)
  | newTarget : Operation k .newTarget
  | binary (operator : BinaryOperator) {l r : Expression} (left : Operation k l)
      (right : Operation k r) : Operation k (.binary l operator r)
  | unary (operator : UnaryOperator) {e : Expression} (operand : Operation k e) :
      Operation k (.unary operator e)
  | update (leading : Bool) (operator : UpdateOperator) {t : Node .simpleTarget}
      (operand : Operation k t) : Operation k (.update leading operator t)
  | await {e : Expression} (operand : Operation k e) : Operation k (.await e)
  | yieldNothing : Operation k (.yield .none)
  | yield {e : Expression} (operand : Operation k e) : Operation k (.yield (.some e))
  | yieldFrom {e : Expression} (operand : Operation k e) : Operation k (.yieldFrom e)
  | conditional {t c a : Expression} (test : Operation k t) (consequent : Operation k c)
      (alternate : Operation k a) : Operation k (.conditional t c a)
  | assign {t : Node .simpleTarget} {e : Expression} (target : Operation k t)
      (value : Operation k e) : Operation k (.assign (.simpleTarget t) e)
  | compoundAssign (operator : CompoundOperator) {t : Node .simpleTarget} {e : Expression}
      (target : Operation k t) (value : Operation k e) : Operation k (.compoundAssign t operator e)
  | arrow {name : String} (isIdentifier : k.IsIdentifier name) {e : Expression}
      (body : Operation k e) :
      Operation k (.arrow false
        (.parameters (.cons (.parameter (.bindingName (.boundName name))) .nil) .none)
        (.arrowResult e))
  | staticMember {s : Node .subject} {property : String} (base : Operation k s)
      (isName : k.isName property.toList = true) : Operation k (.staticMember s property)
  | computedMember {s : Node .subject} {e : Expression} (base : Operation k s)
      (key : Operation k e) : Operation k (.computedMember s e)
  | call {s : Node .subject} {a : Node (.list .argument)} (callee : Operation k s)
      (arguments : Operation k a) : Operation k (.call s a)
  | new {e : Expression} {a : Node (.list .argument)} (callee : Operation k e)
      (arguments : Operation k a) : Operation k (.new e a)
  -- what is accessed or called
  | superObject : Operation k .superObject
  | subject {e : Expression} (expression : Operation k e) : Operation k (.subject e)
  -- arguments
  | argument {e : Expression} (expression : Operation k e) : Operation k (.argument e)
  | spread {e : Expression} (expression : Operation k e) : Operation k (.spread e)
  | nil : Operation k (.nil : Node (.list .argument))
  | cons {first : Node .argument} {more : Node (.list .argument)} (head : Operation k first)
      (tail : Operation k more) : Operation k (.cons first more)
  -- what is assigned
  | targetName {name : String} (isIdentifier : k.IsIdentifier name) :
      Operation k (.targetName (.assignedName name))
  | staticMemberTarget {s : Node .subject} {property : String} (base : Operation k s)
      (isName : k.isName property.toList = true) : Operation k (.staticMemberTarget s property)
  | computedMemberTarget {s : Node .subject} {e : Expression} (base : Operation k s)
      (key : Operation k e) : Operation k (.computedMemberTarget s e)

namespace Reader

/-- How a part of an operator expression is read. -/
def IsRead : (c : Category) → Node c → Prop
  | .expression, e => Reads e.fragment (.subject e) e.precedence.level
  | .subject, base => Reads base.fragment base base.precedence.level
  | .simpleTarget, target =>
      Reads target.fragment (.subject (ofTarget target)) Precedence.call.level
  | .argument, argument => ReadsArgument argument.fragment argument
  | .list .argument, arguments =>
      ∃ items, arguments = Node.ofList items ∧ List.Forall₂ ReadsArgument arguments.fragment items
  | _, _ => True

end Reader

open Reader

/-- **Every operator expression is read back**, with all that it consists of. -/
theorem IdentifierClass.Operation.isRead {k : IdentifierClass} {c : Category} {n : Node c}
    (h : k.Operation n) : IsRead c n := by
  induction h with
  | identifier isIdentifier => exact reads_identifier isIdentifier _ _
  | thisValue => exact reads_word .this (fun _ => rfl) (tokensOf_token _) _
  | null => exact reads_word .null (fun _ => rfl) (tokensOf_token _) _
  | boolean value => exact reads_word (.boolean value) (fun _ => rfl) (tokensOf_token _) _
  | newTarget => exact reads_newTarget _
  | binary operator _ _ left right => exact reads_binary operator left right
  | unary operator _ ih => exact reads_unary operator ih
  | update leading operator _ ih =>
      cases leading with
      | true => exact reads_updateBefore operator ih
      | false => exact reads_updateAfter operator ih
  | await _ ih => exact reads_await ih
  | yieldNothing => exact reads_yieldNothing
  | «yield» _ ih => exact reads_yield ih
  | yieldFrom _ ih => exact reads_yieldFrom ih
  | conditional _ _ _ test consequent alternate => exact reads_conditional test consequent alternate
  | assign _ _ target value => exact reads_assign target value
  | compoundAssign operator _ _ target value => exact reads_compoundAssign operator target value
  | @arrow name isIdentifier e _ ih =>
      have body : Reads (Fragment.parenIf
          (Fragment.atLeast .assignment e e.fragment).leading.startsWithCurly
            (Fragment.atLeast .assignment e e.fragment)) (.subject e) Precedence.assignment.level :=
        reads_parenIf (reads_atLeast ih .assignment) (fun _ => ⟨e, rfl⟩) fun _ => Nat.le_refl _
      refine Reads.congr ?_ (reads_arrow isIdentifier (tokensOf_name .bound name) body)
      exact (tokensOf_seq [_]).trans (List.append_nil _)
  | staticMember _ _ ih => exact reads_staticMember _ ih
  | computedMember _ _ ihBase ihKey => exact reads_computedMember ihBase ihKey
  | call _ _ ihCallee ihArguments =>
      obtain ⟨items, rfl, read⟩ := ihArguments
      exact reads_call ihCallee read
  | @new callee arguments _ _ ihCallee ihArguments =>
      obtain ⟨items, rfl, read⟩ := ihArguments
      cases items with
      | nil => exact reads_newBare (reads_newCallee ihCallee)
      | cons first more => exact reads_new (reads_newCallee ihCallee) read
  | superObject => exact reads_word .super (fun _ => rfl) (tokensOf_token _) _
  | subject _ ih => exact ih
  | argument _ ih => exact readsArgument_argument ih
  | spread _ ih => exact readsArgument_spread ih
  | nil => exact ⟨[], rfl, .nil⟩
  | cons _ _ head tail =>
      obtain ⟨items, rfl, read⟩ := tail
      exact ⟨_ :: items, rfl, .cons head read⟩
  | targetName isIdentifier => exact reads_identifier isIdentifier _ _
  | staticMemberTarget _ _ ih =>
      exact (reads_staticMember _ ih).mono (memberLevel_bounds _).1
  | computedMemberTarget _ _ ihBase ihKey =>
      exact (reads_computedMember ihBase ihKey).mono (memberLevel_bounds _).1

/-- **Operator expressions are uniquely readable**: two that write the same tokens are the
same. -/
theorem Node.eq_of_writtenTokens_eq {k : IdentifierClass} {e₁ e₂ : Expression}
    (h₁ : k.Operation e₁) (h₂ : k.Operation e₂)
    (same : e₁.fragment.writtenTokens .plain false = e₂.fragment.writtenTokens .plain false) :
    e₁ = e₂ := by
  -- between parentheses the reader is left with the expression itself
  have read {e : Expression} (h : k.Operation e) :
      run (expecting [.paren]) (e.fragment.writtenTokens .plain false ++ [Sign.closeParen.token]) =
        holding [] e := by
    have inside := h.isRead [.paren] .closeParen [] (Nat.zero_le _) (Nat.zero_le _)
    rw [Fragment.writtenTokens_eq]
    refine inside.trans ?_
    show step (holding [.paren] e) Sign.closeParen.token = _
    rw [step_sign]
    rfl
  have result := read h₁
  rw [same, read h₂] at result
  simpa [holding] using result.symm

/-- `(-a) ** new (f(...a)) ? a => yield* a : super.m += await f`. -/
def nestedOperation : Expression :=
  .conditional
    (.binary (.unary .minus (.identifier (.usedName "a"))) .exp
      (.new (.call (.subject (.identifier (.usedName "f")))
        (.cons (.spread (.identifier (.usedName "a"))) .nil)) .nil))
    (.arrow false
      (.parameters (.cons (.parameter (.bindingName (.boundName "a"))) .nil) .none)
      (.arrowResult (.yieldFrom (.identifier (.usedName "a")))))
    (.compoundAssign (.staticMemberTarget .superObject "m") .plus
      (.await (.identifier (.usedName "f"))))

theorem nestedOperation_unique : IdentifierClass.ofTables.Operation nestedOperation ∧
    nestedOperation.fragment.writtenTokens .plain false =
      nestedOperation.fragment.writtenTokens .plain false ∧ nestedOperation = nestedOperation := by
  have a : IdentifierClass.ofTables.IsIdentifier "a" := ⟨by decide, by decide⟩
  have f : IdentifierClass.ofTables.IsIdentifier "f" := ⟨by decide, by decide⟩
  have operation : IdentifierClass.ofTables.Operation nestedOperation :=
    .conditional
      (.binary .exp (.unary .minus (.identifier a))
        (.new (.call (.subject (.identifier f)) (.cons (.spread (.identifier a)) .nil)) .nil))
      (.arrow a (.yieldFrom (.identifier a)))
      (.compoundAssign .plus (.staticMemberTarget .superObject (by decide))
        (.await (.identifier f)))
  exact ⟨operation, rfl, Node.eq_of_writtenTokens_eq operation operation rfl⟩

end EcmaScribe
