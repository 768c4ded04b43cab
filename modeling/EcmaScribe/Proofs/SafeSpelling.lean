/-
# EcmaScribe.Proofs.SafeSpelling -- the safe stream needs no safe spelling

The safe script of a program sanitizes a literal when it is spelled and once more when the
stream writes its token.  `Node.render_plain_webSafe`: the plain spelling through the same stream
gives the same script, as long as no name of a variable has a character beyond U+FFFF.  Those
names are the one thing that the spelling knows better than the stream.

The delimiters of a literal are no backslashes, so they keep the text apart from what comes before
and after it, whatever that is; `Text.sanitize_around` then does one lexeme at a time.
-/
import EcmaScribe.Proofs.Fragment.Adjacent
import EcmaScribe.Proofs.Layout.Safety
import EcmaScribe.Proofs.Text.Resanitize
import EcmaScribe.Proofs.Tree.Composed

namespace EcmaScribe

set_option autoImplicit false

open Text

/-! ## Names of variables -/

/-- No name of a variable has a character beyond U+FFFF. -/
def Leaf.Basic : Leaf → Prop
  | name role text => role.isVariable = true → ∀ c ∈ text.toList, isAstral c = false
  | key _ | number _ | string _ | specifier _ | regExp .. | directive _ | template _ => True

/-- The same of a lexeme. -/
def Lexeme.Basic : Lexeme → Prop
  | name role text => role.isVariable = true → ∀ c ∈ text.toList, isAstral c = false
  | verbatim _ | number _ | string _ | quoted _ | regExp .. | chunk .. | directive _ => True

theorem Leaf.Basic.lexeme {leaf : Leaf} (h : leaf.Basic) {l : Lexeme}
    (written : leaf.lexeme? = some l) : l.Basic := by
  cases leaf with
  | name role text => cases written; exact h
  | key value =>
      simp only [Leaf.lexeme?, Option.some.injEq] at written
      subst written
      split
      · exact fun isVariable => by cases isVariable
      · split <;> trivial
  | number | string | specifier | regExp | directive => cases written; trivial
  | template => cases written

theorem Lexeme.Known.basic {l : Lexeme} (h : l.Known Leaf.Basic) : l.Basic := by
  cases h with
  | leaf admitted written => exact admitted.lexeme written
  | infinity | fixed | chunk => trivial

/-! ## One lexeme -/

theorem isInert_delimiter {c : Char} (h : c = '\x27' ∨ c = '\x22') : IsInert c := by
  rcases h with rfl | rfl <;> decide

theorem sanitize_regExpText (pattern flags : List Char) :
    sanitize (Lexeme.regExpText .webSafe pattern flags) =
      sanitize (Lexeme.regExpText .plain pattern flags) := by
  have slash : IsInert '/' := by decide
  have apart : Apart IsInert (pattern ++ ['/']) flags := .inl (by simpa using slash)
  exact sanitize_around ['/'] (by simpa using slash) apart

theorem sanitize_chunkText (follows leads : Bool) (raw : List Char) :
    sanitize (Lexeme.chunkText .webSafe follows leads raw) =
      sanitize (Lexeme.chunkText .plain follows leads raw) := by
  have inert : IsInert '\x7d' ∧ IsInert '$' := by decide
  refine sanitize_around _ ?_ (.inr ?_)
  · cases follows <;> simp [inert]
  · cases leads <;> simp [inert]

theorem sanitize_directiveText (raw : List Char) :
    sanitize (Lexeme.directiveText .webSafe raw) = sanitize (Lexeme.directiveText .plain raw) := by
  have inert : IsInert (directiveDelimiter raw) := isInert_delimiter (directiveDelimiter_cases raw)
  refine sanitize_around [directiveDelimiter raw] ?_ (.inr ?_) <;> simpa using inert

/-- A lexeme is written alike, however it is spelled. -/
theorem Lexeme.Basic.put_webSafe {l : Lexeme} (h : l.Basic) (s : Stream) :
    s.put .webSafe (l.spell .plain) = s.put .webSafe (l.spell .webSafe) := by
  have texts {plain safe : List Char} (same : sanitize safe = sanitize plain) :
      s.put .webSafe (.text plain) = s.put .webSafe (.text safe) := by
    rw [Stream.put_webSafe, Stream.put_webSafe]
    exact congrArg (s.writeToken .webSafe) same.symm
  cases l with
  | verbatim | number | quoted => rfl
  | name role text =>
      refine texts ?_
      cases kind : role.isVariable with
      | false => rfl
      | true =>
          show sanitize (sanitizeName text.toList) = sanitize text.toList
          rw [sanitizeName_eq_sanitize (h kind), sanitize_sanitize]
  | string value => exact texts (sanitize_sanitize _)
  | regExp pattern flags => exact texts (sanitize_regExpText _ _)
  | chunk follows leads raw => exact texts (sanitize_chunkText _ _ _)
  | directive raw => exact texts (sanitize_directiveText _)

/-! ## Scripts -/

/-- Instructions that put basic lexemes only lead to the same stream. -/
theorem Stream.runFrom_plain_webSafe {steps : List (Step Lexeme)}
    (basic : ∀ l, .put l ∈ steps → l.Basic) (s : Stream) :
    s.runFrom .webSafe (steps.map (Step.map (Lexeme.spell .plain))) =
      s.runFrom .webSafe (steps.map (Step.map (Lexeme.spell .webSafe))) := by
  induction steps generalizing s with
  | nil => rfl
  | cons step steps ih =>
      have same : s.step .webSafe (step.map (Lexeme.spell .plain)) =
          s.step .webSafe (step.map (Lexeme.spell .webSafe)) := by
        cases step with
        | put l => exact (basic l List.mem_cons_self).put_webSafe s
        | optionalSemicolon | space | lineBreak | indent | dedent => rfl
      have later := ih (fun l member => basic l (List.mem_cons_of_mem _ member))
        (s.step .webSafe (step.map (Lexeme.spell .plain)))
      simpa only [runFrom, List.map_cons, List.foldl_cons, same] using later

namespace Node

/-- **Sanitizing the literals first changes nothing.**  Names, flags, patterns, template text and
directives may be malformed in any way. -/
theorem render_plain_webSafe {program : Program} (basic : ∀ leaf ∈ program.leaves, leaf.Basic) :
    program.render .plain .webSafe = program.webSafe := by
  have composed : Fragment.Phrase Leaf.Basic program.fragment := program.composed basic
  have known : ∀ l, .put l ∈ program.fragment.steps false → l.Basic := fun l member =>
    ((composed false).known l (List.mem_filterMap.2 ⟨_, member, rfl⟩)).basic
  exact congrArg (Stream.finish .webSafe) (Stream.runFrom_plain_webSafe known .start)

/-- Tag openers and backslashes up to the delimiters, and flags and a name that are none. -/
def malformedLiterals : Program :=
  .script (.cons (.directive "\\\\\"<script ") .nil)
    (.cons (.evaluate (.regExp "\\\u00e9</script" ">\\\u2028"))
      (.cons (.evaluate (.template .none (.cons (.chunk "<SCRIPT\\\\\\")
        (.cons (.substitution (.identifier (.usedName "\\\x00<script>")))
          (.cons (.chunk "/") .nil))))) .nil))

theorem render_malformedLiterals : (∀ leaf ∈ malformedLiterals.leaves, leaf.Basic) ∧
    malformedLiterals.render .plain .webSafe = malformedLiterals.webSafe := by
  have basic : ∀ leaf ∈ malformedLiterals.leaves, leaf.Basic := by
    have name : ∀ c ∈ "\\\x00<script>".toList, isAstral c = false := by decide
    show ∀ leaf ∈ [Leaf.directive "\\\\\"<script ", .regExp "\\\u00e9</script" ">\\\u2028",
      .template _, .name .used "\\\x00<script>"], leaf.Basic
    simp only [List.forall_mem_cons]
    exact ⟨trivial, trivial, trivial, fun _ => name, by simp⟩
  exact ⟨basic, render_plain_webSafe basic⟩

-- the spelling escapes a character beyond U+FFFF in braces, the stream as two units
example : let program : Program :=
      .script .nil (.cons (.evaluate (.identifier (.usedName "𠀀"))) .nil)
    program.render .plain .webSafe = "\\uD840\\uDC00;".toList ∧
      program.webSafe = "\\u\x7b20000\x7d;".toList := by
  decide +kernel

end Node

end EcmaScribe
