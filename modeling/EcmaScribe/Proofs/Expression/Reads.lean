/-
# EcmaScribe.Proofs.Expression.Reads -- what the reader makes of a fragment

`Reads f operand level` says that the tokens of a fragment leave the reader with the operand,
as long as the frame below them and the sign after them are content with the level of the
operand.  Each way to write an expression has its lemma, which takes the parts at the levels
that the fragment asks of them.

Two kinds of steps carry all of it.  A sign goes on with an operand that binds tightly enough
(`after_eq_shift`), and a sign that binds looser completes the frame below (`after_frame`).
-/
import EcmaScribe.Proofs.Expression.Reader
import EcmaScribe.Proofs.Fragment.Lexemes
import EcmaScribe.Proofs.Text.Identifier
import Mathlib.Data.List.Forall2

namespace EcmaScribe

set_option autoImplicit false

namespace Reader

variable {stack : List Frame} {e : Expression} {sign : Sign}

/-! ## Steps -/

def Sign.token (sign : Sign) : Token := .text sign.text.toList

def Start.token (start : Start) : Token := .text start.text.toList

theorem Sign.mem_all (sign : Sign) : sign ∈ all := by
  cases sign with
  | update operator => cases operator <;> decide
  | binary operator => cases operator <;> decide
  | compound operator => cases operator <;> decide
  | _ => decide

theorem step_sign (sign : Sign) (stack : List Frame) (e : Expression) :
    step (holding stack e) sign.token = after sign stack e := by
  simp only [step, holding, Sign.token, Sign.ofText?_text]

theorem step_start (start : Start) (stack : List Frame) :
    step (expecting stack) start.token = begin start stack := by
  simp only [step, expecting, Start.token, Start.ofText?_text]

theorem run_cons (r : Reader) (token : Token) (rest : List Token) :
    run r (token :: rest) = run (step r token) rest := rfl

/-- A name is read as a variable. -/
theorem step_identifier {k : IdentifierClass} {name : String} (h : k.IsIdentifier name)
    (stack : List Frame) :
    step (expecting stack) (.text name.toList) = holding stack (.identifier (.usedName name)) := by
  have starts : ∀ start ∈ Start.all, isNoVariable start.text = true := by decide
  have signs : ∀ sign ∈ Sign.all, isNoVariable sign.text = true := by decide
  have noStart : Start.ofText? name.toList = none := List.find?_eq_none.2 fun start member same =>
    h.ne (starts start member) (of_decide_eq_true same)
  have noSign : Sign.ofText? name.toList = none := List.find?_eq_none.2 fun sign member same =>
    h.ne (signs sign member) (of_decide_eq_true same)
  simp only [step, expecting, noStart, noSign, String.ofList_toList]

/-- What the topmost frame asks of its operand. -/
def floorOf : List Frame → Nat
  | [] => 0
  | frame :: _ => frame.floor

theorem reduce_eq (h : floorOf stack ≤ sign.level) : reduce sign.level stack e = (stack, e) := by
  cases stack with
  | nil => rfl
  | cons frame below =>
      have low : ¬ sign.level < frame.floor := Nat.not_lt.2 h
      simp [reduce, low]

/-- A sign that binds no looser than the frame below asks goes on with the operand. -/
theorem after_eq_shift (h : floorOf stack ≤ sign.level) : after sign stack e = shift sign stack e := by
  unfold after
  split
  · exact absurd h (show ¬ Precedence.member.level ≤ Precedence.call.level by decide)
  · rw [reduce_eq h]

/-- A sign that binds looser completes the frame. -/
theorem after_frame {frame : Frame} (operator : frame.isBracket = false)
    (looser : sign.level < frame.floor) (noCall : sign ≠ .call) :
    after sign (frame :: stack) e = after sign stack (frame.complete e) := by
  have other (stack : List Frame) (e : Expression) : after sign stack e =
      shift sign (reduce sign.level stack e).1 (reduce sign.level stack e).2 := by
    unfold after
    split
    · exact absurd rfl noCall
    · rfl
  rw [other, other, reduce, operator, Bool.not_false, Bool.true_and, if_pos (decide_eq_true looser)]

/-! ## Reading a fragment -/

/-- The tokens of a fragment in plain spelling. -/
def tokensOf (f : Fragment) : List Token := (f.lexemes false).map (Lexeme.spell .plain)

/-- The tokens of a fragment leave the reader with the operand, wherever the frame below and
the sign after them are content with the level. -/
def Reads (f : Fragment) (operand : Node .subject) (level : Nat) : Prop :=
  ∀ (stack : List Frame) (sign : Sign) (rest : List Token),
    floorOf stack ≤ level → sign.demand ≤ level →
      run (expecting stack) (tokensOf f ++ sign.token :: rest) =
        run ⟨stack, .holds operand⟩ (sign.token :: rest)

theorem Reads.mono {f : Fragment} {operand : Node .subject} {level required : Nat}
    (h : Reads f operand level) (le : required ≤ level) : Reads f operand required :=
  fun stack sign rest floor demand =>
    h stack sign rest (Nat.le_trans floor le) (Nat.le_trans demand le)

theorem Reads.congr {f g : Fragment} {operand : Node .subject} {level : Nat}
    (same : tokensOf g = tokensOf f) (h : Reads f operand level) : Reads g operand level := by
  unfold Reads
  rw [same]
  exact h

/-- Between parentheses an expression may stand anywhere. -/
theorem reads_paren {f : Fragment} {level : Nat} (h : Reads f (.subject e) level)
    (required : Nat) : Reads (.paren f) (.subject e) required := by
  intro stack sign rest _ _
  have tokens : tokensOf (.paren f) ++ sign.token :: rest =
      Start.paren.token :: (tokensOf f ++ Sign.closeParen.token :: sign.token :: rest) := by
    simp [tokensOf, Start.token, Start.text, Sign.token, Sign.text, Lexeme.spell]
  have inside := h (.paren :: stack) .closeParen (sign.token :: rest) (Nat.zero_le _)
    (Nat.zero_le _)
  rw [tokens, run_cons, step_start]
  calc run (expecting (.paren :: stack)) (tokensOf f ++ Sign.closeParen.token :: sign.token :: rest)
      = run (holding (.paren :: stack) e) (Sign.closeParen.token :: sign.token :: rest) := inside
    _ = run (after .closeParen (.paren :: stack) e) (sign.token :: rest) := by
      rw [run_cons, step_sign]

theorem reads_parenIf {operand : Node .subject} {f : Fragment} {condition : Bool}
    {level required : Nat} (h : Reads f operand level)
    (isExpression : condition = true → ∃ e, operand = .subject e)
    (enough : condition = false → required ≤ level) :
    Reads (Fragment.parenIf condition f) operand required := by
  cases condition with
  | false => exact h.mono (enough rfl)
  | true =>
      obtain ⟨e, rfl⟩ := isExpression rfl
      exact reads_paren h required

theorem reads_atLeast {f : Fragment} (h : Reads f (.subject e) e.precedence.level)
    (required : Precedence) :
    Reads (Fragment.atLeast required e f) (.subject e) required.level := by
  unfold Fragment.atLeast
  split
  · exact reads_paren h _
  · exact h.mono (Nat.le_of_not_lt ‹_›)

/-- The signs that an operator of the given level is content with complete a frame that asks
for `floor`. -/
def Tight (level floor : Nat) : Prop :=
  ∀ sign ∈ Sign.all, sign.demand ≤ level →
    sign.level < floor ∧ sign.demand ≤ floor ∧ sign ≠ .call

instance (level floor : Nat) : Decidable (Tight level floor) :=
  inferInstanceAs (Decidable (∀ sign ∈ Sign.all, sign.demand ≤ level →
    sign.level < floor ∧ sign.demand ≤ floor ∧ sign ≠ .call))

/-- The last operand of an operator: a sign that the whole is content with completes its
frame. -/
theorem Reads.under (frame : Frame) {f : Fragment} {level : Nat}
    (h : Reads f (.subject e) frame.floor) (operator : frame.isBracket = false)
    (tight : Tight level frame.floor) (demand : sign.demand ≤ level) (stack : List Frame) (rest : List Token) :
    run (expecting (frame :: stack)) (tokensOf f ++ sign.token :: rest) =
      run (holding stack (frame.complete e)) (sign.token :: rest) := by
  obtain ⟨looser, low, noCall⟩ := tight sign sign.mem_all demand
  have read := h (frame :: stack) sign rest (Nat.le_refl _) low
  rw [read, run_cons, run_cons]
  show run (step (holding (frame :: stack) e) sign.token) rest = _
  rw [step_sign, step_sign, after_frame operator looser noCall]

/-! ## Operators -/

/-- Tokens of a row of fragments, written one after another. -/
theorem tokensOf_spaced (f : Fragment) (fs : List Fragment) :
    tokensOf (Fragment.spaced (f :: fs)) = tokensOf f ++ fs.flatMap tokensOf := by
  simp only [tokensOf, Fragment.lexemes_spaced, List.map_append, List.map_flatMap]
  rfl

theorem tokensOf_seq (fs : List Fragment) :
    tokensOf (Fragment.seq fs) = fs.flatMap tokensOf := by
  simp only [tokensOf, Fragment.lexemes_seq, List.map_flatMap]
  rfl

theorem tokensOf_token (text : String) : tokensOf (Fragment.token text) = [.text text.toList] := by
  simp [tokensOf, Lexeme.spell]

/-- The tokens of a list of fragments with commas in between. -/
def tokensOfCommas (first : Bool) (fs : List Fragment) : List Token :=
  (Fragment.lexemesCommas false first fs).map (Lexeme.spell .plain)

theorem tokensOfCommas_cons (first : Bool) (f : Fragment) (fs : List Fragment) :
    tokensOfCommas first (f :: fs) =
      (if first then [] else [(Sign.binary .sequence).token]) ++ tokensOf f ++
        tokensOfCommas false fs := by
  cases first <;>
    simp [tokensOfCommas, tokensOf, Fragment.lexemesCommas, Lexeme.spell, Sign.token, Sign.text,
      BinaryOperator.text]

theorem tokensOf_parenCommas (fs : List Fragment) :
    tokensOf (.paren (.commaSep fs)) =
      Sign.call.token :: tokensOfCommas true fs ++ [Sign.closeParen.token] := by
  simp [tokensOf, tokensOfCommas, Fragment.lexemes_commaSep, Lexeme.spell, Sign.token, Sign.text]

theorem tokensOf_name (role : NameRole) (text : String) :
    tokensOf (.lexeme (.name role text)) = [.text text.toList] := by
  cases role <;> simp [tokensOf, Lexeme.spell, NameRole.isVariable, Spelling.variableName]

/-- A frame with the sign before its operand. -/
theorem reads_operator (start : Start) (frame : Frame) (level : Precedence) {f : Fragment}
    (opens : ∀ stack, begin start stack = expecting (frame :: stack))
    (h : Reads f (.subject e) frame.floor) (operator : frame.isBracket = false)
    (tight : Tight level.level frame.floor) {g : Fragment}
    (written : tokensOf g = start.token :: tokensOf f) :
    Reads g (.subject (frame.complete e)) level.level := by
  intro stack sign rest _ demand
  rw [written, List.cons_append, run_cons, step_start, opens]
  exact h.under frame operator tight demand stack rest

/-- A frame with an operand and a sign before its last operand. -/
theorem reads_operands (before : Sign) (frame : Frame) (level : Precedence) {f g : Fragment}
    {left right : Expression} (first : Reads f (.subject left) before.demand)
    (loose : level.level ≤ before.level) (order : before.level ≤ before.demand)
    (opens : ∀ stack, floorOf stack ≤ level.level →
      shift before stack left = expecting (frame :: stack))
    (second : Reads g (.subject right) frame.floor) (operator : frame.isBracket = false)
    (tight : Tight level.level frame.floor) {whole : Fragment} (written : tokensOf whole = tokensOf f ++ before.token :: tokensOf g) :
    Reads whole (.subject (frame.complete right)) level.level := by
  intro stack sign rest floor demand
  have fits : floorOf stack ≤ before.demand := by omega
  rw [written, List.append_assoc, List.cons_append, first stack before _ fits (Nat.le_refl _),
    run_cons]
  show run (step (holding stack left) before.token) _ = _
  rw [step_sign, after_eq_shift (Nat.le_trans floor loose), opens stack floor]
  exact second.under frame operator tight demand stack rest

/-- A comma is an operator where no argument list would take it. -/
theorem shift_binary {operator : BinaryOperator} (h : floorOf stack ≤ operator.precedence.level) :
    shift (.binary operator) stack e = expecting (.binary e operator :: stack) := by
  cases operator with
  | sequence =>
      cases stack with
      | nil => rfl
      | cons frame below =>
          cases frame with
          | arguments callee done isSpread =>
              exact absurd h
                (show ¬ Precedence.assignment.level ≤ Precedence.sequence.level by decide)
          | _ => rfl
  | _ => rfl

theorem reads_binaryOperands {l r : Expression} (operator : BinaryOperator) {f g : Fragment}
    (left : Reads f (.subject l) l.precedence.level)
    (right : Reads g (.subject r) r.precedence.level) :
    Reads (Fragment.binaryOperands l operator r f g).1 (.subject l) (leftDemand operator) ∧
      Reads (Fragment.binaryOperands l operator r f g).2 (.subject r) (rightDemand operator) := by
  cases grouping : operator.isRightAssociative with
  | true =>
      simp only [Fragment.binaryOperands, leftDemand, rightDemand, grouping, if_true]
      refine ⟨reads_parenIf left (fun _ => ⟨l, rfl⟩) fun loose => ?_, reads_atLeast right _⟩
      simp only [Bool.or_eq_false_iff, decide_eq_false_iff_not] at loose
      exact Nat.lt_of_not_le loose.1
  | false =>
      simp only [Fragment.binaryOperands, leftDemand, rightDemand, grouping, if_false,
        Bool.false_eq_true]
      refine ⟨reads_atLeast left _, reads_parenIf right (fun _ => ⟨r, rfl⟩) fun loose => ?_⟩
      exact Nat.lt_of_not_le (of_decide_eq_false loose)

theorem tokensOf_binary (l r : Expression) (operator : BinaryOperator) (f g : Fragment) :
    tokensOf (Fragment.binary l operator r f g) =
      tokensOf (Fragment.binaryOperands l operator r f g).1 ++ (Sign.binary operator).token ::
        tokensOf (Fragment.binaryOperands l operator r f g).2 := by
  unfold Fragment.binary
  generalize Fragment.binaryOperands l operator r f g = operands
  obtain ⟨first, second⟩ := operands
  have spaced (text : String) : tokensOf (.spaced [first, .token text, second]) =
      tokensOf first ++ .text text.toList :: tokensOf second := by
    simp [tokensOf_spaced, tokensOf_token]
  cases operator with
  | sequence =>
      simp only [tokensOf, Fragment.lexemes_seq]
      simp [Sign.token, Sign.text, Lexeme.spell]
  | isIn =>
      have unrestricted : tokensOf (.containsIn (.spaced [first, .token "in", second])) =
          tokensOf (.spaced [first, .token "in", second]) := by
        simp [tokensOf, Fragment.lexemes_containsIn]
      exact unrestricted.trans (spaced "in")
  | _ => exact spaced _

theorem reads_binary {l r : Expression} (operator : BinaryOperator) {f g : Fragment}
    (left : Reads f (.subject l) l.precedence.level)
    (right : Reads g (.subject r) r.precedence.level) :
    Reads (Fragment.binary l operator r f g) (.subject (.binary l operator r))
      operator.precedence.level := by
  obtain ⟨first, second⟩ := reads_binaryOperands operator left right
  have order : (Sign.binary operator).level ≤ (Sign.binary operator).demand := by
    cases operator <;> decide
  have tight : Tight operator.precedence.level (rightDemand operator) := by
    cases operator <;> decide
  exact reads_operands (.binary operator) (.binary l operator) operator.precedence first
    (Nat.le_refl _) order (fun stack floor => shift_binary floor) second rfl tight
    (tokensOf_binary l r operator f g)

theorem tokensOf_unary (operator : UnaryOperator) (f : Fragment) :
    tokensOf (Fragment.unary operator e f) =
      (Start.unary operator).token :: tokensOf (Fragment.atLeast .prefixed e f) := by
  unfold Fragment.unary
  dsimp only
  split
  · simp [tokensOf_spaced, tokensOf_token, Start.token, Start.text]
  · simp [tokensOf_seq, tokensOf_token, Start.token, Start.text]

theorem reads_unary (operator : UnaryOperator) {f : Fragment}
    (h : Reads f (.subject e) e.precedence.level) :
    Reads (Fragment.unary operator e f) (.subject (.unary operator e))
      Precedence.prefixed.level := by
  have tight : Tight Precedence.prefixed.level Precedence.prefixed.level := by decide
  exact reads_operator (.unary operator) (.unary operator) .prefixed (fun _ => rfl)
    (reads_atLeast h .prefixed) rfl tight (tokensOf_unary operator f)

theorem reads_await {f : Fragment} (h : Reads f (.subject e) e.precedence.level) :
    Reads (.spaced [.token "await", .atLeast .prefixed e f]) (.subject (.await e))
      Precedence.prefixed.level :=
  reads_operator .await .await .prefixed (fun _ => rfl) (reads_atLeast h .prefixed) rfl (by decide)
    (by simp [tokensOf_spaced, tokensOf_token, Start.token, Start.text])

theorem reads_updateBefore (operator : UpdateOperator) {target : Node .simpleTarget} {f : Fragment}
    (h : Reads f (.subject (ofTarget target)) Precedence.call.level) :
    Reads (.seq [.token operator.text, f]) (.subject (.update true operator target))
      Precedence.prefixed.level := by
  have tight : Tight Precedence.prefixed.level Precedence.call.level := by decide
  have complete : (Frame.update operator).complete (ofTarget target) = .update true operator target := by
    simp [Frame.complete, target?_ofTarget]
  rw [← complete]
  exact reads_operator (.update operator) (.update operator) .prefixed (fun _ => rfl) h rfl tight
    (by simp [tokensOf_seq, tokensOf_token, Start.token, Start.text])

theorem reads_updateAfter (operator : UpdateOperator) {target : Node .simpleTarget} {f : Fragment}
    (h : Reads f (.subject (ofTarget target)) Precedence.call.level) :
    Reads (.seq [f, .token operator.text]) (.subject (.update false operator target))
      Precedence.postfixed.level := by
  intro stack sign rest floor demand
  have written : tokensOf (.seq [f, .token operator.text]) =
      tokensOf f ++ [(Sign.update operator).token] := by
    simp [tokensOf_seq, tokensOf_token, Sign.token, Sign.text]
  have fits : floorOf stack ≤ Precedence.call.level := Nat.le_trans floor (by decide)
  rw [written, List.append_assoc, List.singleton_append,
    h stack (.update operator) _ fits (Nat.le_refl _), run_cons]
  show run (step (holding stack (ofTarget target)) (Sign.update operator).token) _ = _
  rw [step_sign, after_eq_shift floor]
  simp [shift, target?_ofTarget, holding]

theorem reads_yieldNothing : Reads (.token "yield") (.subject (.yield .none))
    Precedence.assignment.level := by
  intro stack sign rest _ demand
  have closing : ∀ sign ∈ Sign.all, sign.demand ≤ Precedence.assignment.level →
      Start.ofText? sign.text.toList = none := by decide
  have noStart := closing sign sign.mem_all demand
  have written : tokensOf (.token "yield") = [Start.yield.token] := tokensOf_token _
  rw [written, List.singleton_append, run_cons, run_cons, run_cons, step_start]
  show run (step (expecting (.yield :: stack)) sign.token) rest =
    run (step (holding stack (.yield .none)) sign.token) rest
  rw [step_sign]
  simp only [step, expecting, Sign.token, noStart, Sign.ofText?_text, without]

theorem reads_yield {f : Fragment} (h : Reads f (.subject e) e.precedence.level) :
    Reads (.spaced [.token "yield", .atLeast .assignment e f]) (.subject (.yield (.some e)))
      Precedence.assignment.level :=
  reads_operator .yield .yield .assignment (fun _ => rfl) (reads_atLeast h .assignment) rfl
    (by decide) (by simp [tokensOf_spaced, tokensOf_token, Start.token, Start.text])

theorem reads_yieldFrom {f : Fragment} (h : Reads f (.subject e) e.precedence.level) :
    Reads (.seq [.token "yield", .spaced [.token "*", .atLeast .assignment e f]])
      (.subject (.yieldFrom e)) Precedence.assignment.level := by
  intro stack sign rest _ demand
  have written : tokensOf (.seq [.token "yield", .spaced [.token "*", .atLeast .assignment e f]]) =
      Start.yield.token :: Start.star.token :: tokensOf (.atLeast .assignment e f) := by
    simp [tokensOf_seq, tokensOf_spaced, tokensOf_token, Start.token, Start.text]
  rw [written, List.cons_append, List.cons_append, run_cons, run_cons, step_start]
  show run (step (expecting (.yield :: stack)) Start.star.token) _ = _
  rw [step_start]
  have tight : Tight Precedence.assignment.level Precedence.assignment.level := by decide
  exact Reads.under .yieldFrom (reads_atLeast h .assignment) rfl tight demand stack rest

theorem reads_assign {target : Node .simpleTarget} {f g : Fragment}
    (left : Reads f (.subject (ofTarget target)) Precedence.call.level)
    (right : Reads g (.subject e) e.precedence.level) :
    Reads (Fragment.defaulted f e g) (.subject (.assign (.simpleTarget target) e))
      Precedence.assignment.level := by
  have tight : Tight Precedence.assignment.level Precedence.assignment.level := by decide
  exact reads_operands .assign (.assign target) .assignment left (by decide) (by decide)
    (fun stack _ => by simp [shift, target?_ofTarget]) (reads_atLeast right .assignment) rfl tight
    (by simp [Fragment.defaulted, tokensOf_spaced, tokensOf_token, Sign.token, Sign.text])

theorem reads_compoundAssign (operator : CompoundOperator) {target : Node .simpleTarget}
    {f g : Fragment} (left : Reads f (.subject (ofTarget target)) Precedence.call.level)
    (right : Reads g (.subject e) e.precedence.level) :
    Reads (.spaced [f, .token operator.text, .atLeast .assignment e g])
      (.subject (.compoundAssign target operator e)) Precedence.assignment.level := by
  have tight : Tight Precedence.assignment.level Precedence.assignment.level := by decide
  have loose : Precedence.assignment.level ≤ Precedence.assignment.level := by decide
  have order : Precedence.assignment.level ≤ Precedence.call.level := by decide
  exact reads_operands (.compound operator) (.compound target operator) .assignment left loose order
    (fun stack _ => by simp [shift, target?_ofTarget]) (reads_atLeast right .assignment) rfl tight
    (by simp [tokensOf_spaced, tokensOf_token, Sign.token, Sign.text])

theorem reads_conditional {t c a : Expression} {f g h : Fragment}
    (test : Reads f (.subject t) t.precedence.level)
    (consequent : Reads g (.subject c) c.precedence.level)
    (alternate : Reads h (.subject a) a.precedence.level) :
    Reads (.spaced [.atLeast .logicalOr t f, .token "?", .atLeast .assignment c g, .token ":",
      .atLeast .assignment a h]) (.subject (.conditional t c a)) Precedence.conditional.level := by
  intro stack sign rest floor demand
  have written : tokensOf (.spaced [.atLeast .logicalOr t f, .token "?", .atLeast .assignment c g,
      .token ":", .atLeast .assignment a h]) ++ sign.token :: rest =
        tokensOf (.atLeast .logicalOr t f) ++ Sign.question.token ::
          (tokensOf (.atLeast .assignment c g) ++ Sign.colon.token ::
            (tokensOf (.atLeast .assignment a h) ++ sign.token :: rest)) := by
    simp [tokensOf_spaced, tokensOf_token, Sign.token, Sign.text]
  have fits : floorOf stack ≤ Precedence.logicalOr.level := Nat.le_trans floor (by decide)
  have tight : Tight Precedence.conditional.level Precedence.assignment.level := by decide
  rw [written, reads_atLeast test .logicalOr stack .question _ fits (Nat.le_refl _), run_cons]
  show run (step (holding stack t) Sign.question.token) _ = _
  rw [step_sign, after_eq_shift floor]
  show run (expecting (.consequent t :: stack)) _ = _
  rw [reads_atLeast consequent .assignment (.consequent t :: stack) .colon _ (Nat.le_refl _)
    (Nat.zero_le _), run_cons]
  show run (step (holding (.consequent t :: stack) c) Sign.colon.token) _ = _
  rw [step_sign]
  exact Reads.under (.alternate t c) (reads_atLeast alternate .assignment) rfl tight demand stack rest

theorem reads_arrow {k : IdentifierClass} {name : String} (isIdentifier : k.IsIdentifier name)
    {f g : Fragment} (param : tokensOf g = [.text name.toList])
    (body : Reads f (.subject e) Precedence.assignment.level) :
    Reads (.spaced [g, .token "=>", f]) (.subject (arrowOf name e))
      Precedence.conditional.level := by
  intro stack sign rest floor demand
  have written : tokensOf (.spaced [g, .token "=>", f]) ++ sign.token :: rest =
      .text name.toList :: Sign.arrow.token :: (tokensOf f ++ sign.token :: rest) := by
    simp [tokensOf_spaced, tokensOf_token, param, Sign.token, Sign.text]
  have fits : floorOf stack ≤ Sign.arrow.level := Nat.le_trans floor (by decide)
  have tight : Tight Precedence.conditional.level Precedence.assignment.level := by decide
  rw [written, run_cons, step_identifier isIdentifier, run_cons, step_sign, after_eq_shift fits]
  exact Reads.under (.arrow name) body rfl tight demand stack rest

/-! ## Members -/

variable {base : Node .subject}

theorem step_member (floor : floorOf stack ≤ Precedence.member.level) :
    step ⟨stack, .holds base⟩ Sign.member.token = ⟨stack, .property base⟩ := by
  cases base with
  | superObject => rfl
  | subject e => exact (step_sign .member stack e).trans (after_eq_shift floor)

theorem step_index (floor : floorOf stack ≤ Precedence.member.level) :
    step ⟨stack, .holds base⟩ Sign.index.token = expecting (.index base :: stack) := by
  cases base with
  | superObject => rfl
  | subject e => exact (step_sign .index stack e).trans (after_eq_shift floor)

theorem step_call (floor : floorOf stack ≤ Precedence.call.level) :
    step ⟨stack, .holds base⟩ Sign.call.token =
      expecting (.arguments (.call base) [] false :: stack) := by
  cases base with
  | superObject => rfl
  | subject e => exact (step_sign .call stack e).trans (after_eq_shift floor)

/-- The level of a member access. -/
def memberLevel (base : Node .subject) : Nat :=
  (if base.precedence = .call then Precedence.call else Precedence.member).level

theorem memberLevel_bounds (base : Node .subject) :
    Precedence.call.level ≤ memberLevel base ∧ memberLevel base ≤ Precedence.member.level := by
  unfold memberLevel
  split <;> decide

theorem reads_memberObject {f : Fragment} (h : Reads f base base.precedence.level) :
    Reads (Fragment.memberObject base f) base (memberLevel base) := by
  refine reads_parenIf h (fun wrapped => ?_) fun bare => ?_
  · cases base with
    | superObject => cases wrapped
    | subject e => exact ⟨e, rfl⟩
  · simp only [Bool.and_eq_false_iff, decide_eq_false_iff_not, Decidable.not_not] at bare
    unfold memberLevel
    rcases bare with call | member
    · refine Nat.le_of_eq ?_
      rw [if_pos call, call]
    · split
      · refine Nat.le_of_eq ?_
        rw [‹base.precedence = _›]
      · exact Nat.le_of_not_lt member

theorem reads_staticMember {f : Fragment} (property : String)
    (h : Reads f base base.precedence.level) :
    Reads (Fragment.staticMember base f property) (.subject (.staticMember base property))
      (memberLevel base) := by
  intro stack sign rest floor demand
  obtain ⟨low, high⟩ := memberLevel_bounds base
  have written : tokensOf (Fragment.staticMember base f property) ++ sign.token :: rest =
      tokensOf (Fragment.memberObject base f) ++ Sign.member.token ::
        .text property.toList :: sign.token :: rest := by
    simp [Fragment.staticMember, tokensOf_seq, tokensOf_token, tokensOf_name, Sign.token, Sign.text]
  rw [written, reads_memberObject h stack .member _ floor low, run_cons,
    step_member (Nat.le_trans floor high), run_cons]
  simp [step, holding]

theorem reads_computedMember {f g : Fragment} (h : Reads f base base.precedence.level)
    (key : Reads g (.subject e) e.precedence.level) :
    Reads (Fragment.computedMember base f g) (.subject (.computedMember base e))
      (memberLevel base) := by
  intro stack sign rest floor demand
  obtain ⟨low, high⟩ := memberLevel_bounds base
  have written : tokensOf (Fragment.computedMember base f g) ++ sign.token :: rest =
      tokensOf (Fragment.memberObject base f) ++ Sign.index.token ::
        (tokensOf g ++ Sign.closeBracket.token :: sign.token :: rest) := by
    unfold Fragment.computedMember Fragment.markedIf
    split <;> simp [tokensOf, Sign.token, Sign.text, Lexeme.spell]
  rw [written, reads_memberObject h stack .index _ floor low, run_cons,
    step_index (Nat.le_trans floor high),
    key (.index base :: stack) .closeBracket _ (Nat.zero_le _) (Nat.zero_le _), run_cons]
  show run (step (holding (.index base :: stack) e) Sign.closeBracket.token) _ = _
  rw [step_sign]
  rfl

/-! ## Arguments -/

/-- The tokens of an argument leave the reader with its expression and the mark of a spread. -/
def ReadsArgument (f : Fragment) (argument : Node .argument) : Prop :=
  ∃ isSpread e, argument = argumentOf isSpread e ∧
    ∀ (callee : Callee) (done : List (Node .argument)) (stack : List Frame) (sign : Sign)
      (rest : List Token), sign.demand ≤ Precedence.assignment.level →
        run (expecting (.arguments callee done false :: stack)) (tokensOf f ++ sign.token :: rest) =
          run (holding (.arguments callee done isSpread :: stack) e) (sign.token :: rest)

theorem readsArgument_argument {f : Fragment} (h : Reads f (.subject e) e.precedence.level) :
    ReadsArgument (.atLeast .assignment e f) (.argument e) :=
  ⟨false, e, rfl, fun callee done stack sign rest demand =>
    reads_atLeast h .assignment (.arguments callee done false :: stack) sign rest (Nat.le_refl _)
      demand⟩

theorem readsArgument_spread {f : Fragment} (h : Reads f (.subject e) e.precedence.level) :
    ReadsArgument (.rest (.atLeast .assignment e f)) (.spread e) := by
  refine ⟨true, e, rfl, fun callee done stack sign rest demand => ?_⟩
  have written : tokensOf (.rest (.atLeast .assignment e f)) =
      Start.spread.token :: tokensOf (.atLeast .assignment e f) := by
    simp [Fragment.rest, tokensOf_seq, tokensOf_token, Start.token, Start.text]
  rw [written, List.cons_append, run_cons, step_start]
  exact reads_atLeast h .assignment (.arguments callee done true :: stack) sign rest
    (Nat.le_refl _) demand

/-- After an argument comes a comma or the closing parenthesis. -/
theorem exists_sign_after (fs : List Fragment) (rest : List Token) :
    ∃ (sign : Sign) (more : List Token), tokensOfCommas false fs ++ Sign.closeParen.token :: rest = sign.token :: more ∧
      sign.demand ≤ Precedence.assignment.level := by
  cases fs with
  | nil => exact ⟨.closeParen, rest, rfl, by decide⟩
  | cons f fs =>
      exact ⟨.binary .sequence, tokensOf f ++ tokensOfCommas false fs ++
        Sign.closeParen.token :: rest, by simp [tokensOfCommas_cons], by decide⟩

/-- The arguments after one that is held. -/
theorem reads_moreArguments {fs : List Fragment} {arguments : List (Node .argument)}
    (h : List.Forall₂ ReadsArgument fs arguments) (callee : Callee) (done : List (Node .argument))
    (isSpread : Bool) (e : Expression) (stack : List Frame) (rest : List Token) :
    run (holding (.arguments callee done isSpread :: stack) e)
        (tokensOfCommas false fs ++ Sign.closeParen.token :: rest) =
      run (holding stack (callee.apply (done ++ argumentOf isSpread e :: arguments))) rest := by
  induction h generalizing done isSpread e with
  | nil =>
      show run (step (holding (.arguments callee done isSpread :: stack) e)
        Sign.closeParen.token) rest = _
      rw [step_sign]
      rfl
  | @cons f argument fs arguments first _ ih =>
      obtain ⟨nextSpread, next, rfl, read⟩ := first
      obtain ⟨sign, more, after, demand⟩ := exists_sign_after fs rest
      have comma : tokensOfCommas false (f :: fs) ++ Sign.closeParen.token :: rest =
          (Sign.binary .sequence).token :: (tokensOf f ++ sign.token :: more) := by
        simp [tokensOfCommas_cons, ← after]
      rw [comma, run_cons, step_sign]
      show run (expecting (.arguments callee (done ++ [argumentOf isSpread e]) false :: stack)) _ = _
      rw [read callee _ stack sign more demand, ← after, ih, List.append_assoc,
        List.singleton_append]

/-- The arguments of a call or of `new`. -/
theorem reads_arguments {fs : List Fragment} {arguments : List (Node .argument)}
    (h : List.Forall₂ ReadsArgument fs arguments) (callee : Callee) (stack : List Frame)
    (rest : List Token) :
    run (expecting (.arguments callee [] false :: stack))
        (tokensOfCommas true fs ++ Sign.closeParen.token :: rest) =
      run (holding stack (callee.apply arguments)) rest := by
  cases h with
  | nil => rfl
  | @cons f argument fs arguments first others =>
      obtain ⟨isSpread, e, rfl, read⟩ := first
      obtain ⟨sign, more, after, demand⟩ := exists_sign_after fs rest
      have written : tokensOfCommas true (f :: fs) ++ Sign.closeParen.token :: rest =
          tokensOf f ++ sign.token :: more := by
        simp [tokensOfCommas_cons, ← after]
      rw [written, read callee [] stack sign more demand, ← after,
        reads_moreArguments others, List.nil_append]

theorem reads_call {fs : List Fragment} {arguments : List (Node .argument)} {f : Fragment}
    (h : Reads f base base.precedence.level) (hArguments : List.Forall₂ ReadsArgument fs arguments) :
    Reads (.seq [.parenIf (base.precedence < .call) f, .paren (.commaSep fs)])
      (.subject (.call base (Node.ofList arguments))) Precedence.call.level := by
  intro stack sign rest floor demand
  have written : tokensOf (.seq [.parenIf (base.precedence < .call) f, .paren (.commaSep fs)]) ++
      sign.token :: rest = tokensOf (.parenIf (base.precedence < .call) f) ++ Sign.call.token ::
        (tokensOfCommas true fs ++ Sign.closeParen.token :: sign.token :: rest) := by
    simp [tokensOf_seq, tokensOf_parenCommas]
  have callee : Reads (.parenIf (base.precedence < .call) f) base Precedence.call.level := by
    refine reads_parenIf h (fun wrapped => ?_) fun bare => ?_
    · cases base with
      | superObject => cases wrapped
      | subject e => exact ⟨e, rfl⟩
    · exact Nat.le_of_not_lt (of_decide_eq_false bare)
  rw [written, callee stack .call _ floor (Nat.le_refl _), run_cons, step_call floor]
  exact reads_arguments hArguments (.call base) stack (sign.token :: rest)

/-- What follows `new`. -/
theorem reads_newCallee {f : Fragment} {condition : Bool}
    (h : Reads f (.subject e) e.precedence.level) :
    Reads (.parenIf (condition || e.precedence < .member) f) (.subject e)
      Precedence.member.level := by
  refine reads_parenIf h (fun _ => ⟨e, rfl⟩) fun bare => ?_
  simp only [Bool.or_eq_false_iff] at bare
  exact Nat.le_of_not_lt (of_decide_eq_false bare.2)

theorem reads_newBare {f : Fragment} (h : Reads f (.subject e) Precedence.member.level) :
    Reads (.spaced [.token "new", f]) (.subject (.new e .nil)) Precedence.new.level :=
  reads_operator .new .new .new (fun _ => rfl) h rfl (by decide)
    (by simp [tokensOf_spaced, tokensOf_token, Start.token, Start.text])

theorem reads_new {fs : List Fragment} {arguments : List (Node .argument)} {f : Fragment}
    (h : Reads f (.subject e) Precedence.member.level)
    (hArguments : List.Forall₂ ReadsArgument fs arguments) :
    Reads (.seq [.spaced [.token "new", f], .paren (.commaSep fs)])
      (.subject (.new e (Node.ofList arguments))) Precedence.member.level := by
  intro stack sign rest _ _
  have written : tokensOf (.seq [.spaced [.token "new", f], .paren (.commaSep fs)]) ++
      sign.token :: rest = Start.new.token :: (tokensOf f ++ Sign.call.token ::
        (tokensOfCommas true fs ++ Sign.closeParen.token :: sign.token :: rest)) := by
    simp [tokensOf_seq, tokensOf_spaced, tokensOf_parenCommas, tokensOf_token, Start.token,
      Start.text]
  rw [written, run_cons, step_start]
  show run (expecting (.new :: stack)) _ = _
  rw [h (.new :: stack) .call _ (Nat.le_refl _) (by decide), run_cons]
  show run (step (holding (.new :: stack) e) Sign.call.token) _ = _
  rw [step_sign]
  exact reads_arguments hArguments (.new e) stack (sign.token :: rest)

/-! ## Operands -/

theorem reads_identifier {k : IdentifierClass} {name : String} (h : k.IsIdentifier name)
    (role : NameRole) (level : Nat) :
    Reads (.lexeme (.name role name)) (.subject (.identifier (.usedName name))) level := by
  intro stack sign rest _ _
  rw [tokensOf_name, List.singleton_append, run_cons, step_identifier h]
  rfl

/-- A word that is an operand. -/
theorem reads_word (start : Start) {operand : Node .subject} {f : Fragment}
    (word : ∀ stack, begin start stack = ⟨stack, .holds operand⟩)
    (written : tokensOf f = [start.token]) (level : Nat) : Reads f operand level := by
  intro stack sign rest _ _
  rw [written, List.singleton_append, run_cons, step_start, word]

theorem reads_newTarget (level : Nat) :
    Reads (.seq [.token "new", .token ".", .token "target"]) (.subject .newTarget) level := by
  intro stack sign rest _ _
  have written : tokensOf (.seq [.token "new", .token ".", .token "target"]) ++ sign.token :: rest =
      Start.new.token :: Start.point.token :: .text "target".toList :: sign.token :: rest := by
    simp [tokensOf_seq, tokensOf_token, Start.token, Start.text]
  rw [written, run_cons, step_start, run_cons]
  show run (step (expecting (.new :: stack)) Start.point.token) _ = _
  rw [step_start]
  rfl

end Reader

end EcmaScribe
