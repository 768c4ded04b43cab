/-
# EcmaScribe.Proofs.Fragment.LineEnds -- where readable output breaks a line

After `return`, `throw`, `yield` and their like, and in front of a postfix operator, a line break
ends the statement.  No rule breaks a line there: every break comes after a brace, a semicolon or a
colon (`BreaksAtEnds`), so that is where the stream breaks lines (`Stream.isChain_laidFrom`).

Two things are proved of fragments.  One that is `Calm` breaks lines only so, whatever stands in
front of it.  One that is an `IsLine` besides ends in such a lexeme, and therefore may stand on a
line with another line after it.  Blocks and the bodies of cases are made of lines.

How deep a line is indented depends on its place alone: `Fragment.nested` counts the indentations
around every lexeme, and the stream counts the same (`Fragment.lexemesFrom_steps`).
-/
import EcmaScribe.Proofs.Fragment.Tight
import EcmaScribe.Proofs.Layout.Laid

namespace EcmaScribe

set_option autoImplicit false

/-! ## Instructions -/

/-- The lexemes after which a line may be broken. -/
def lineEnds : List Lexeme :=
  [.verbatim "\x7b", .verbatim "\x7d", .verbatim ";", .verbatim ":"]

/-- No line is broken after the words at whose end a line break would end the statement. -/
example : ∀ word ∈ ["return", "throw", "break", "continue", "yield", "async"],
    Lexeme.verbatim word ∉ lineEnds := by decide

/-- Whether a line may be broken after an instruction.  What writes nothing changes nothing. -/
def Step.endsLine (ended : Bool) : Step Lexeme → Bool
  | .put l => if l.isBlank then ended else decide (l ∈ lineEnds)
  | .optionalSemicolon => true
  | .space | .lineBreak | .indent | .dedent => ended

/-- Whether a line may be broken after instructions. -/
def endsLine (ended : Bool) (steps : List (Step Lexeme)) : Bool := steps.foldl Step.endsLine ended

/-- Lines are broken only where they may be; `ended` tells whether that is so in front. -/
def BreaksAtEnds : Bool → List (Step Lexeme) → Prop
  | _, [] => True
  | ended, step :: steps =>
      (step = .lineBreak → ended = true) ∧ BreaksAtEnds (step.endsLine ended) steps

section Instructions

variable {ended : Bool} {l m : List (Step Lexeme)}

@[simp] theorem endsLine_nil : endsLine ended [] = ended := rfl

@[simp] theorem endsLine_cons (step : Step Lexeme) :
    endsLine ended (step :: l) = endsLine (step.endsLine ended) l := rfl

@[simp] theorem endsLine_append : endsLine ended (l ++ m) = endsLine (endsLine ended l) m :=
  List.foldl_append

@[simp] theorem breaksAtEnds_append :
    BreaksAtEnds ended (l ++ m) ↔ BreaksAtEnds ended l ∧ BreaksAtEnds (endsLine ended l) m := by
  induction l generalizing ended with
  | nil => simp [BreaksAtEnds]
  | cons step l ih => simp [BreaksAtEnds, ih, and_assoc]

@[simp] theorem breaksAtEnds_put (x : Lexeme) :
    BreaksAtEnds ended (.put x :: l) ↔ BreaksAtEnds ((Step.put x).endsLine ended) l := by
  simp [BreaksAtEnds]

/-- Instructions between two brackets. -/
theorem BreaksAtEnds.enclosed {opening closing : Lexeme} (inner : ∀ ended, BreaksAtEnds ended l) :
    BreaksAtEnds ended (.put opening :: l ++ [.put closing]) := by
  rw [List.cons_append, breaksAtEnds_put, breaksAtEnds_append]
  exact ⟨inner _, by simp [BreaksAtEnds]⟩

end Instructions

namespace Stream

variable {spelling : Spelling} {layout : Layout} {s : Stream}

/-- If the second lexeme starts a line, the first may end one. -/
def MayFollow (p w : Laid) : Prop := w.spacing = .lineBreak → p.lexeme ∈ lineEnds

theorem pendingBreak_of_spacing {asked : Layout} {token : List Char}
    (broken : s.spacing asked token = .lineBreak) : s.pendingBreak = true := by
  unfold spacing at broken
  split at broken
  · rename_i pending
    simp only [Bool.and_eq_true] at pending
    exact pending.1
  · split at broken <;> cases broken

/-- After a lexeme no break is due. -/
theorem pendingBreak_put {l : Lexeme} (written : l.isBlank = false) :
    (s.put layout (l.spell spelling)).pendingBreak = false := by
  rw [put_of_written (l.writtenText_ne_nil written)]
  rfl

/-- One lexeme: if it stands on a new line, the break was due, and so a line may end there. -/
theorem isChain_putLaid {l : Lexeme} {ended : Bool} {before : Option Laid} {rest : List Laid}
    (settled : s.Settled) (due : s.pendingBreak = true → ended = true)
    (ends : ended = true → ∀ p ∈ before, p.lexeme ∈ lineEnds)
    (later : ∀ front : Option Laid,
      ((s.put layout (l.spell spelling)).pendingBreak = true →
        (Step.put l).endsLine ended = true) →
      ((Step.put l).endsLine ended = true → ∀ p ∈ front, p.lexeme ∈ lineEnds) →
      (front.toList ++ rest).IsChain MayFollow) :
    (before.toList ++ (s.putLaid spelling layout l ++ rest)).IsChain MayFollow := by
  cases written : l.isBlank with
  | true =>
      have same : s.put layout (l.spell spelling) = s :=
        put_of_blank (Lexeme.writtenText_of_isBlank written)
      have unchanged : (Step.put l).endsLine ended = ended := by simp [Step.endsLine, written]
      rw [putLaid_of_blank written]
      rw [same, unchanged] at later
      exact later before due ends
  | false =>
      have own : (Step.put l).endsLine ended = decide (l ∈ lineEnds) := by
        simp [Step.endsLine, written]
      have noBreak : ¬ (s.put layout (l.spell spelling)).pendingBreak = true := by
        simp [pendingBreak_put written]
      rw [putLaid_of_settled settled written]
      generalize spacing : s.spacing (layout.forToken (l.spell spelling))
        (l.writtenText spelling layout) = kind
      have next := later (some ⟨kind, s.level, l⟩) (fun pending => absurd pending noBreak)
        fun ended p isNew => by
          cases isNew
          simpa [own] using ended
      cases before with
      | none => exact next
      | some p =>
          refine .cons_cons (fun broken => ?_) next
          have pending : s.pendingBreak = true := pendingBreak_of_spacing (spacing.trans broken)
          exact ends (due pending) p rfl

/-- **Readable output breaks a line only after a lexeme that ends one**, if its instructions ask
for no other break. -/
theorem isChain_laidFrom (readable : layout.compact = false) (steps : List (Step Lexeme))
    {ended : Bool} {before : Option Laid} (settled : s.Settled)
    (orderly : BreaksAtEnds ended steps) (due : s.pendingBreak = true → ended = true)
    (ends : ended = true → ∀ p ∈ before, p.lexeme ∈ lineEnds) :
    (before.toList ++ s.laidFrom spelling layout steps).IsChain MayFollow := by
  induction steps generalizing s ended before with
  | nil =>
      have noSemicolon : s.pendingSemicolon = false := settled
      cases before <;> simp [laidFrom, noSemicolon]
  | cons step steps ih =>
      obtain ⟨here, later⟩ := orderly
      have nextSettled : (s.stepLexeme spelling layout step).Settled :=
        settled_step readable settled step
      rw [laidFrom]
      cases step with
      | put l =>
          exact isChain_putLaid settled due ends fun front => ih nextSettled later
      | optionalSemicolon =>
          rw [stepLexeme_optionalSemicolon readable] at nextSettled ⊢
          rw [stepLaid_optionalSemicolon readable]
          exact isChain_putLaid settled due ends fun front => ih nextSettled later
      | space =>
          refine ih nextSettled later (fun pending => due ?_) ends
          simpa [stepLexeme, Step.map, Stream.step, readable] using pending
      | lineBreak => exact ih nextSettled later (fun _ => here rfl) ends
      | indent | dedent => exact ih nextSettled later due ends

/-- A lexeme right after another one is laid without a line break. -/
theorem exists_laid_pair (spelling : Spelling) (layout : Layout) {s : Stream} (settled : s.Settled)
    {l x : Lexeme} (first : l.isBlank = false) (second : x.isBlank = false)
    (rest : List (Step Lexeme)) :
    ∃ p w after, s.laidFrom spelling layout (.put l :: .put x :: rest) = p :: w :: after ∧
      p.lexeme = l ∧ w.lexeme = x ∧ w.spacing ≠ .lineBreak := by
  have settledNext : (s.stepLexeme spelling layout (.put l)).Settled :=
    settled_put settled l
  have noBreak : (s.stepLexeme spelling layout (.put l)).pendingBreak = false :=
    pendingBreak_put first
  rw [laidFrom, laidFrom, stepLaid, stepLaid,
    putLaid_of_settled settled first, putLaid_of_settled settledNext second]
  refine ⟨_, _, _, rfl, rfl, rfl, fun broken => ?_⟩
  have due := pendingBreak_of_spacing broken
  rw [noBreak] at due
  cases due

end Stream

namespace Fragment

/-! ## Fragments -/

/-- Whatever stands in front, the fragment breaks lines only where they may be broken. -/
def Calm (f : Fragment) : Prop := ∀ b ended, BreaksAtEnds ended (f.steps b)

/-- A fragment after which a line may be broken. -/
structure IsLine (f : Fragment) : Prop where
  calm : Calm f
  ends : ∀ b ended, endsLine ended (f.steps b) = true

theorem calm_empty : Calm empty := fun _ _ => by simp [steps, BreaksAtEnds]

theorem calm_lexeme (l : Lexeme) : Calm (lexeme l) := fun _ _ => by simp [steps, BreaksAtEnds]

theorem calm_token (text : String) : Calm (token text) := calm_lexeme _

theorem calm_space : Calm space := fun _ _ => by simp [steps, BreaksAtEnds]

theorem isLine_semicolon : IsLine semicolon where
  calm _ _ := by simp [steps, BreaksAtEnds]
  ends b ended := by
    rw [steps]
    decide +revert

theorem isLine_optionalSemicolon : IsLine optionalSemicolon where
  calm _ _ := by simp [steps, BreaksAtEnds]
  ends _ _ := by simp [steps, Step.endsLine]

theorem calm_stepsAll {fs : List Fragment} (h : ∀ f ∈ fs, Calm f) (b ended : Bool) :
    BreaksAtEnds ended (stepsAll b fs) := by
  induction fs generalizing ended with
  | nil => simp [stepsAll, BreaksAtEnds]
  | cons f fs ih =>
      obtain ⟨first, more⟩ := List.forall_mem_cons.1 h
      simpa [stepsAll] using ⟨first b ended, ih more _⟩

theorem calm_seq {fs : List Fragment} (h : ∀ f ∈ fs, Calm f) : Calm (seq fs) := fun b ended => by
  rw [steps]
  exact calm_stepsAll h b ended

/-- What ends a line at the end of a row ends it after the row. -/
theorem IsLine.seq {fs : List Fragment} {last : Fragment} (h : ∀ f ∈ fs, Calm f)
    (isLast : fs.getLast? = some last) (line : IsLine last) : IsLine (seq fs) where
  calm := calm_seq h
  ends b ended := by
    obtain ⟨front, rfl⟩ := List.getLast?_eq_some_iff.1 isLast
    rw [steps, stepsAll_append, stepsAll_single, endsLine_append]
    exact line.ends b _

theorem calm_paren {f : Fragment} (h : Calm f) : Calm (paren f) := fun b ended => by
  rw [steps]
  exact .enclosed (h false)

theorem calm_bracket {f : Fragment} (h : Calm f) : Calm (bracket f) := fun b ended => by
  rw [steps]
  exact .enclosed (h false)

theorem calm_brace {f : Fragment} (h : Calm f) : Calm (brace f) := fun b ended => by
  rw [steps]
  exact .enclosed (h false)

theorem calm_noIn {f : Fragment} (h : Calm f) : Calm (noIn f) := fun b ended => by
  rw [steps]
  exact h true ended

theorem calm_containsIn {f : Fragment} (h : Calm f) : Calm (containsIn f) := fun b ended => by
  rw [steps]
  split
  · exact .enclosed (h false)
  · exact h false ended

theorem calm_marked {f : Fragment} (mark : Mark) (h : Calm f) : Calm (marked mark f) :=
  fun b ended => by
    rw [steps]
    exact h b ended

theorem IsLine.marked {f : Fragment} (mark : Mark) (h : IsLine f) : IsLine (marked mark f) where
  calm := calm_marked mark h.calm
  ends b ended := by
    rw [steps]
    exact h.ends b ended

theorem calm_commaSep {fs : List Fragment} (h : ∀ f ∈ fs, Calm f) : Calm (commaSep fs) := by
  intro b ended
  rw [steps]
  generalize true = first
  induction fs generalizing ended first with
  | nil => simp [stepsCommas, BreaksAtEnds]
  | cons f fs ih =>
      obtain ⟨head, more⟩ := List.forall_mem_cons.1 h
      have separator : ∀ ended, BreaksAtEnds ended
          (if first then [] else [.put (.verbatim ","), .space]) := by
        cases first <;> simp [BreaksAtEnds]
      rw [stepsCommas, breaksAtEnds_append, breaksAtEnds_append]
      exact ⟨⟨separator ended, head b _⟩, ih more _ _⟩

/-! ## Lines under each other -/

/-- Between two lines there is a break, and the one before has ended. -/
theorem breaksAtEnds_stepsLines {fs : List Fragment} (h : ∀ f ∈ fs, IsLine f) (b first ended : Bool)
    (front : first = false → ended = true) :
    BreaksAtEnds ended (stepsLines b first fs) ∧
      (ended = true → endsLine ended (stepsLines b first fs) = true) := by
  induction fs generalizing first ended with
  | nil => simp [stepsLines, BreaksAtEnds]
  | cons f fs ih =>
      obtain ⟨line, more⟩ := List.forall_mem_cons.1 h
      rw [stepsLines]
      split
      · exact ih more first ended front
      · have separator : BreaksAtEnds ended (if first then [] else [.lineBreak]) := by
          cases first with
          | true => exact trivial
          | false => exact ⟨fun _ => front rfl, trivial⟩
        generalize (if first then [] else [.lineBreak] : List (Step Lexeme)) = between at separator ⊢
        -- after the child the line has ended, whatever has been before
        have ended' : endsLine (endsLine ended between) (f.steps b) = true := line.ends b _
        have rest := ih more false true fun _ => rfl
        simp only [breaksAtEnds_append, endsLine_append, ended']
        exact ⟨⟨⟨separator, line.calm b _⟩, rest.1⟩, fun _ => rest.2 rfl⟩

theorem calm_lines {fs : List Fragment} (h : ∀ f ∈ fs, IsLine f) : Calm (lines fs) := by
  intro b ended
  rw [steps]
  exact (breaksAtEnds_stepsLines h b true ended nofun).1

/-- Indented lines go on after the end of a line, and leave off at one. -/
theorem breaksAtEnds_indent {fs : List Fragment} (h : ∀ f ∈ fs, IsLine f) (b : Bool) :
    BreaksAtEnds true ((indent (lines fs)).steps b) ∧
      endsLine true ((indent (lines fs)).steps b) = true := by
  have inner := breaksAtEnds_stepsLines h b true true fun _ => rfl
  rw [steps]
  split
  · exact ⟨trivial, rfl⟩
  · rw [steps, breaksAtEnds_append, endsLine_append]
    have line : BreaksAtEnds true (.indent :: .lineBreak :: stepsLines b true fs) :=
      ⟨nofun, fun _ => rfl, inner.1⟩
    exact ⟨⟨line, nofun, trivial⟩, inner.2 rfl⟩

/-- **A block is made of lines**, and one may follow it. -/
theorem isLine_block {fs : List Fragment} (h : ∀ f ∈ fs, IsLine f) : IsLine (block fs) where
  calm b ended := by
    unfold block
    split
    · exact calm_brace calm_empty b ended
    · obtain ⟨inner, ends⟩ := breaksAtEnds_indent h false
      rw [braceLines, steps, steps, stepsAll, stepsAll_single, List.cons_append, breaksAtEnds_put]
      have opened : (Step.put (.verbatim "\x7b")).endsLine ended = true := by decide +revert
      rw [opened, breaksAtEnds_append, breaksAtEnds_append, ends, steps]
      exact ⟨⟨inner, fun _ => rfl, trivial⟩, by simp [BreaksAtEnds]⟩
  ends b ended := by
    have closed (ended : Bool) : endsLine ended [.put (.verbatim "\x7d")] = true := by
      decide +revert
    unfold block
    split
    · rw [steps, endsLine_append]
      exact closed _
    · rw [braceLines, steps, endsLine_append]
      exact closed _

/-- A case is a line, with the lines of its body after the colon. -/
theorem isLine_case {head : Fragment} {fs : List Fragment} (hHead : Calm head)
    (h : ∀ f ∈ fs, IsLine f) :
    IsLine (Fragment.seq [head, token ":", indent (lines fs)]) := by
  have colon (ended : Bool) : (Step.put (.verbatim ":")).endsLine ended = true := by decide +revert
  constructor
  · intro b ended
    rw [steps, stepsAll, stepsAll, stepsAll_single, token, steps, breaksAtEnds_append,
      List.singleton_append, breaksAtEnds_put, colon]
    exact ⟨hHead b ended, (breaksAtEnds_indent h b).1⟩
  · intro b ended
    rw [steps, stepsAll, stepsAll, stepsAll_single, token, steps, endsLine_append,
      List.singleton_append, endsLine_cons, colon]
    exact (breaksAtEnds_indent h b).2

/-! ## Phrases -/

theorem calm_spaced {fs : List Fragment} (h : ∀ f ∈ fs, Calm f) : Calm (spaced fs) := by
  cases fs with
  | nil => exact calm_empty
  | cons f fs =>
      obtain ⟨first, more⟩ := List.forall_mem_cons.1 h
      refine calm_seq (List.forall_mem_cons.2 ⟨first, fun g member => ?_⟩)
      obtain ⟨part, listed, inside⟩ := List.mem_flatMap.1 member
      simp only [List.mem_cons, List.not_mem_nil, or_false] at inside
      rcases inside with rfl | rfl
      · exact calm_space
      · exact more g listed

theorem IsLine.spaced {fs : List Fragment} {last : Fragment} (h : ∀ f ∈ fs, Calm f)
    (isLast : fs.getLast? = some last) (line : IsLine last) : IsLine (spaced fs) := by
  obtain ⟨front, rfl⟩ := List.getLast?_eq_some_iff.1 isLast
  refine ⟨calm_spaced h, fun b ended => ?_⟩
  cases front with
  | nil =>
      show endsLine ended ((Fragment.seq [last]).steps b) = true
      exact (IsLine.seq (by simpa using line.calm) rfl line).ends b ended
  | cons f front =>
      have shape : Fragment.spaced (f :: front ++ [last]) =
          .seq ((f :: front.flatMap fun g => [space, g]) ++ [space, last]) := by
        simp [Fragment.spaced]
      have apart : stepsAll b [space, last] = .space :: last.steps b := by simp [stepsAll, steps]
      rw [shape, steps, stepsAll_append, apart, endsLine_append]
      exact line.ends b _

theorem isLine_statement {f : Fragment} (h : Calm f) : IsLine (statement f) :=
  .seq (by simpa using ⟨h, isLine_optionalSemicolon.calm⟩) rfl isLine_optionalSemicolon

theorem calm_parenIf {f : Fragment} (condition : Bool) (h : Calm f) :
    Calm (parenIf condition f) := by
  cases condition with
  | true => exact calm_paren h
  | false => exact h

theorem calm_atLeast {f : Fragment} (required : Precedence) (node : Expression) (h : Calm f) :
    Calm (atLeast required node f) := by
  unfold atLeast
  split
  · exact calm_paren h
  · exact h

/-- Two parts with a word in between. -/
theorem calm_infixed {f g : Fragment} (text : String) (left : Calm f) (right : Calm g) :
    Calm (spaced [f, token text, g]) :=
  calm_spaced (by simpa using ⟨left, calm_token text, right⟩)

/-- A part with a word in front. -/
theorem calm_prefixed {f : Fragment} (text : String) (h : Calm f) :
    Calm (spaced [token text, f]) :=
  calm_spaced (by simpa using ⟨calm_token text, h⟩)

theorem calm_defaulted {target value : Fragment} (node : Expression) (left : Calm target)
    (right : Calm value) : Calm (defaulted target node value) :=
  calm_infixed "=" left (calm_atLeast _ _ right)

theorem calm_keyed {name value : Fragment} (left : Calm name) (right : Calm value) :
    Calm (keyed name value) :=
  calm_seq (by simpa using ⟨left, calm_token ":", calm_space, right⟩)

theorem IsLine.keyed {name value : Fragment} (h : IsLine value) (left : Calm name) :
    IsLine (keyed name value) :=
  .seq (by simpa using ⟨left, calm_token ":", calm_space, h.calm⟩) rfl h

theorem calm_rest {f : Fragment} (h : Calm f) : Calm (rest f) :=
  calm_seq (by simpa using ⟨calm_token "...", h⟩)

theorem calm_elements {items : List (Option Fragment)} (h : ∀ item ∈ items, ∀ f ∈ item, Calm f) :
    Calm (elements items) := by
  have listed : Calm (commaSep (items.map (·.getD empty))) := by
    refine calm_commaSep fun f member => ?_
    obtain ⟨item, listed, rfl⟩ := List.mem_map.1 member
    cases item with
    | none => exact calm_empty
    | some f => exact h _ listed f rfl
  unfold elements
  dsimp only
  split
  · exact calm_seq (by simpa using ⟨listed, calm_token ","⟩)
  · exact listed

theorem calm_arrayPattern {items : List (Option Fragment)} {remainder : Option Fragment}
    (h : ∀ item ∈ items, ∀ f ∈ item, Calm f) (hRest : ∀ f ∈ remainder, Calm f) :
    Calm (arrayPattern items remainder) := by
  refine calm_bracket (calm_elements (List.forall_mem_append.2 ⟨h, fun item member f inside => ?_⟩))
  obtain ⟨g, isRest, rfl⟩ := List.mem_map.1 member
  cases inside
  exact calm_rest (hRest g (by simpa using isRest))

theorem calm_objectBraces {fs : List Fragment} (h : ∀ f ∈ fs, Calm f) : Calm (objectBraces fs) :=
  calm_marked _ (calm_brace (calm_commaSep h))

theorem calm_staticMember {f : Fragment} (object : Node .subject) (property : String)
    (h : Calm f) : Calm (staticMember object f property) :=
  calm_seq (by simpa using ⟨calm_parenIf _ h, calm_token ".", calm_lexeme _⟩)

theorem calm_computedMember {f key : Fragment} (object : Node .subject) (h : Calm f)
    (hKey : Calm key) : Calm (computedMember object f key) := by
  have access : Calm (Fragment.seq [memberObject object f, bracket key]) :=
    calm_seq (by simpa using ⟨calm_parenIf _ h, calm_bracket hKey⟩)
  unfold computedMember markedIf
  split
  · exact calm_marked _ access
  · exact access

theorem calm_parameterList {fs : List Fragment} {remainder : Option Fragment}
    (h : ∀ f ∈ fs, Calm f) (hRest : ∀ f ∈ remainder, Calm f) :
    Calm (parameterList fs remainder) := by
  refine calm_paren (calm_commaSep (List.forall_mem_append.2 ⟨h, fun f member => ?_⟩))
  obtain ⟨g, isRest, rfl⟩ := List.mem_map.1 member
  exact calm_rest (hRest g (by simpa using isRest))

theorem calm_asyncHead (isAsync : Bool) : ∀ f ∈ asyncHead isAsync, Calm f := by
  cases isAsync with
  | true => simpa [asyncHead] using ⟨calm_token "async", calm_space⟩
  | false => simp [asyncHead]

theorem calm_generatorStar (isGenerator : Bool) : ∀ f ∈ generatorStar isGenerator, Calm f := by
  cases isGenerator with
  | true => simpa [generatorStar] using calm_token "*"
  | false => simp [generatorStar]

/-- The end of a function or a method. -/
theorem isLine_withBody {fs : List Fragment} {params body : Fragment} (h : ∀ f ∈ fs, Calm f)
    (hParams : Calm params) (hBody : IsLine body) :
    IsLine (Fragment.seq (fs ++ [params, space, body])) :=
  .seq (List.forall_mem_append.2 ⟨h, by simpa using ⟨hParams, calm_space, hBody.calm⟩⟩)
    (by simp) hBody

theorem isLine_function {isAsync isGenerator : Bool} {name : Option Fragment}
    {params body : Fragment} (hName : ∀ f ∈ name, Calm f) (hParams : Calm params)
    (hBody : IsLine body) : IsLine (function isAsync isGenerator name params body) := by
  have named : ∀ f ∈ name.toList.flatMap fun name => [space, name], Calm f := by
    cases name with
    | none => simp
    | some name => simpa using ⟨calm_space, hName name rfl⟩
  exact isLine_withBody (List.forall_mem_append.2 ⟨List.forall_mem_append.2
    ⟨calm_asyncHead isAsync, List.forall_mem_cons.2 ⟨calm_token _, calm_generatorStar isGenerator⟩⟩,
      named⟩) hParams hBody

theorem isLine_method {isAsync isGenerator : Bool} {name params body : Fragment}
    (hName : Calm name) (hParams : Calm params) (hBody : IsLine body) :
    IsLine (method isAsync isGenerator name params body) := by
  have head : ∀ f ∈ asyncHead isAsync ++ generatorStar isGenerator ++ [name], Calm f :=
    List.forall_mem_append.2 ⟨List.forall_mem_append.2
      ⟨calm_asyncHead isAsync, calm_generatorStar isGenerator⟩, by simpa using hName⟩
  simpa [method] using isLine_withBody head hParams hBody

theorem isLine_accessor {name param body : Fragment} (keyword : String) (hName : Calm name)
    (hParam : Calm param) (hBody : IsLine body) : IsLine (accessor keyword name param body) := by
  have head : ∀ f ∈ [token keyword, space, name], Calm f := by
    simpa using ⟨calm_token keyword, calm_space, hName⟩
  exact isLine_withBody head (calm_paren hParam) hBody

theorem isLine_class {name heritage : Option Fragment} {fs : List Fragment}
    (hName : ∀ f ∈ name, Calm f) (hHeritage : ∀ f ∈ heritage, Calm f) (h : ∀ f ∈ fs, IsLine f) :
    IsLine (class_ name heritage fs) := by
  have heirs : ∀ f ∈ heritage.toList.flatMap fun f => [token "extends", f], Calm f := by
    cases heritage with
    | none => simp
    | some heritage => simpa using ⟨calm_token "extends", hHeritage heritage rfl⟩
  have head : ∀ f ∈ token "class" :: name.toList ++
      heritage.toList.flatMap (fun f => [token "extends", f]), Calm f :=
    List.forall_mem_append.2 ⟨List.forall_mem_cons.2 ⟨calm_token _, by simpa using hName⟩, heirs⟩
  exact .spaced (List.forall_mem_append.2 ⟨head, by simpa using (isLine_block h).calm⟩)
    List.getLast?_concat (isLine_block h)

theorem calm_binary {l r : Fragment} (left : Expression) (operator : BinaryOperator)
    (right : Expression) (hLeft : Calm l) (hRight : Calm r) :
    Calm (binary left operator right l r) := by
  have operands : Calm (binaryOperands left operator right l r).1 ∧
      Calm (binaryOperands left operator right l r).2 := by
    unfold binaryOperands
    dsimp only
    split
    · exact ⟨calm_parenIf _ hLeft, calm_atLeast _ _ hRight⟩
    · exact ⟨calm_atLeast _ _ hLeft, calm_parenIf _ hRight⟩
  obtain ⟨first, second⟩ := operands
  unfold binary
  dsimp only
  split
  · exact calm_seq (by simpa using ⟨first, calm_token _, calm_space, second⟩)
  · exact calm_containsIn (calm_infixed _ first second)
  · exact calm_infixed _ first second

theorem calm_unary {f : Fragment} (operator : UnaryOperator) (operand : Expression) (h : Calm f) :
    Calm (unary operator operand f) := by
  have argument := calm_atLeast .prefixed operand h
  unfold unary
  dsimp only
  split
  · exact calm_prefixed _ argument
  · exact calm_seq (by simpa using ⟨calm_token _, argument⟩)

theorem calm_templateFragments {pieces : List TemplatePiece} (h : ∀ f, .code f ∈ pieces → Calm f)
    (total done : Nat) : ∀ f ∈ TemplatePiece.fragments total done pieces, Calm f := by
  induction pieces generalizing done with
  | nil => exact List.forall_mem_nil _
  | cons piece pieces ih =>
      have more := ih fun f member => h f (List.mem_cons_of_mem _ member)
      cases piece with
      | text raw => exact List.forall_mem_cons.2 ⟨calm_lexeme _, more _⟩
      | code f => exact List.forall_mem_cons.2 ⟨h f List.mem_cons_self, more _⟩

theorem calm_template {tag : Option Fragment} {pieces : List TemplatePiece}
    (hTag : ∀ f ∈ tag, Calm f) (h : ∀ f, .code f ∈ pieces → Calm f) :
    Calm (template tag pieces) := by
  have opened : ∀ f ∈ token "\x60" ::
      TemplatePiece.fragments (pieces.countP (·.isText)) 0 pieces, Calm f :=
    List.forall_mem_cons.2 ⟨calm_token _, calm_templateFragments h _ _⟩
  exact calm_seq (List.forall_mem_append.2 ⟨List.forall_mem_append.2
    ⟨by simpa using hTag, opened⟩, by simpa using calm_token _⟩)

theorem calm_propertyKey (key : String) : Calm (propertyKey key) := by
  unfold propertyKey
  split
  · exact calm_lexeme _
  · split <;> exact calm_lexeme _

theorem calm_fromClause (specifier : String) : ∀ f ∈ fromClause specifier, Calm f := by
  simpa [fromClause] using ⟨calm_token "from", calm_lexeme _⟩

theorem isLine_importNames {default : Option Fragment} {named : List Fragment}
    (specifier : String) (hDefault : ∀ f ∈ default, Calm f) (hNamed : ∀ f ∈ named, Calm f) :
    IsLine (importNames default named specifier) := by
  have clause : ∀ f ∈ default.toList ++
      (if named.isEmpty then [] else [brace (commaSep named)]), Calm f := by
    refine List.forall_mem_append.2 ⟨by simpa using hDefault, ?_⟩
    split
    · exact List.forall_mem_nil _
    · exact List.forall_mem_singleton.2 (calm_brace (calm_commaSep hNamed))
  refine isLine_statement (calm_spaced (List.forall_mem_cons.2 ⟨calm_token _, ?_⟩))
  generalize default.toList ++ (if named.isEmpty then [] else [brace (commaSep named)]) = items
    at clause ⊢
  split
  · exact List.forall_mem_singleton.2 (calm_lexeme _)
  · exact List.forall_mem_cons.2 ⟨calm_commaSep clause, calm_fromClause specifier⟩

theorem isLine_importNamespace {default : Option Fragment} {name : Fragment} (specifier : String)
    (hDefault : ∀ f ∈ default, Calm f) (hName : Calm name) :
    IsLine (importNamespace default name specifier) := by
  have star : Calm (spaced [token "*", token "as", name]) :=
    calm_spaced (by simpa using ⟨calm_token "*", calm_token "as", hName⟩)
  have whole {clause : Fragment} (h : Calm clause) :
      IsLine (statement (spaced (token "import" :: clause :: fromClause specifier))) :=
    isLine_statement (calm_spaced (List.forall_mem_cons.2
      ⟨calm_token _, List.forall_mem_cons.2 ⟨h, calm_fromClause specifier⟩⟩))
  cases default with
  | none => exact whole star
  | some default => exact whole (calm_commaSep (by simpa using ⟨hDefault default rfl, star⟩))

/-! ## Depths -/

mutual

/-- The lexemes of a fragment, each with the number of indentations around it. -/
def nested (depth : Nat) (noIn : Bool) : Fragment → List (Nat × Lexeme)
  | empty | space | lineBreak => []
  | lexeme l => [(depth, l)]
  | seq children => nestedAll depth noIn children
  | paren inner =>
      (depth, .verbatim "(") :: inner.nested depth false ++ [(depth, .verbatim ")")]
  | bracket inner =>
      (depth, .verbatim "[") :: inner.nested depth false ++ [(depth, .verbatim "]")]
  | brace inner =>
      (depth, .verbatim "\x7b") :: inner.nested depth false ++ [(depth, .verbatim "\x7d")]
  | lines children => nestedLines depth noIn children
  | indent inner => if inner.isBlank then [] else inner.nested (depth + 1) noIn
  | commaSep children => nestedCommas depth noIn true children
  | .noIn inner => inner.nested depth true
  | containsIn inner =>
      if noIn then (depth, .verbatim "(") :: inner.nested depth false ++ [(depth, .verbatim ")")]
      else inner.nested depth false
  | semicolon | optionalSemicolon => [(depth, .verbatim ";")]
  | marked _ inner => inner.nested depth noIn

def nestedAll (depth : Nat) (noIn : Bool) : List Fragment → List (Nat × Lexeme)
  | [] => []
  | f :: rest => f.nested depth noIn ++ nestedAll depth noIn rest

/-- Each child that is not blank. -/
def nestedLines (depth : Nat) (noIn : Bool) : List Fragment → List (Nat × Lexeme)
  | [] => []
  | f :: rest =>
      if f.isBlank then nestedLines depth noIn rest
      else f.nested depth noIn ++ nestedLines depth noIn rest

/-- Every child, with commas in between. -/
def nestedCommas (depth : Nat) (noIn first : Bool) : List Fragment → List (Nat × Lexeme)
  | [] => []
  | f :: rest =>
      (if first then [] else [(depth, .verbatim ",")]) ++ f.nested depth noIn ++
        nestedCommas depth noIn false rest

end

theorem nestedLines_of_allBlank {fs : List Fragment} (blank : allBlank fs = true) (depth : Nat)
    (b : Bool) : nestedLines depth b fs = [] := by
  induction fs with
  | nil => rw [nestedLines]
  | cons f fs ih =>
      rw [allBlank, Bool.and_eq_true] at blank
      rw [nestedLines, if_pos blank.1, ih blank.2]

/-- Indented lines are one deeper. -/
theorem nested_indent_lines (depth : Nat) (b : Bool) (fs : List Fragment) :
    (indent (lines fs)).nested depth b = nestedLines (depth + 1) b fs := by
  rw [nested]
  split
  · rename_i blank
    exact (nestedLines_of_allBlank (by simpa only [isBlank] using blank) _ _).symm
  · rw [nested]

/-- **What a block holds is one deeper than its braces.** -/
theorem nested_block (depth : Nat) (b : Bool) (fs : List Fragment) :
    (block fs).nested depth b =
      (depth, .verbatim "\x7b") :: nestedLines (depth + 1) false fs ++
        [(depth, .verbatim "\x7d")] := by
  unfold block
  split
  · rename_i blank
    rw [nested, nestedLines_of_allBlank blank, nested]
  · rw [braceLines, nested, nested, nestedAll, nestedAll, nestedAll, nested_indent_lines, nested]
    simp

/-- The lines after the colon of a `case` or `default` are one deeper than what introduces them. -/
theorem nested_clause (depth : Nat) (b : Bool) (label : Fragment) (fs : List Fragment) :
    (seq [label, token ":", indent (lines fs)]).nested depth b =
      label.nested depth b ++ (depth, .verbatim ":") :: nestedLines (depth + 1) b fs := by
  have colon : (token ":").nested depth b = [(depth, .verbatim ":")] := by rw [token, nested]
  rw [nested, nestedAll, nestedAll, nestedAll, nestedAll, nested_indent_lines, colon]
  simp

/-- Brackets stand at the depth of what is between them. -/
theorem lexemesFrom_enclosed (depth : Nat) (opening closing : Lexeme) {inner : List (Step Lexeme)}
    {own : List (Nat × Lexeme)}
    (h : ∀ rest, lexemesFrom depth (inner ++ rest) = own ++ lexemesFrom depth rest)
    (rest : List (Step Lexeme)) :
    lexemesFrom depth ((.put opening :: inner ++ [.put closing]) ++ rest) =
      ((depth, opening) :: own ++ [(depth, closing)]) ++ lexemesFrom depth rest := by
  have put (l : Lexeme) (steps : List (Step Lexeme)) :
      lexemesFrom depth (.put l :: steps) = (depth, l) :: lexemesFrom depth steps := rfl
  simp only [List.cons_append, List.append_assoc, put, h, List.nil_append]

mutual

/-- **Every lexeme stands at the depth of the indentations around it**, and what follows the
fragment stands at the depth from before. -/
theorem lexemesFrom_steps (depth : Nat) (b : Bool) (rest : List (Step Lexeme)) :
    (f : Fragment) → lexemesFrom depth (f.steps b ++ rest) =
      f.nested depth b ++ lexemesFrom depth rest
  | .empty => by rw [steps, nested]; rfl
  | .lexeme l => by rw [steps, nested]; rfl
  | .seq children => by rw [steps, nested]; exact lexemesFrom_stepsAll depth b rest children
  | .paren inner | .bracket inner | .brace inner => by
      rw [steps, nested]
      exact lexemesFrom_enclosed depth _ _ (fun rest => lexemesFrom_steps depth false rest inner) rest
  | .lines children => by
      rw [steps, nested]
      exact lexemesFrom_stepsLines depth b true rest children
  | .indent inner => by
      rw [steps, nested]
      split
      · rfl
      · rw [List.append_assoc, List.cons_append, List.cons_append]
        exact lexemesFrom_steps (depth + 1) b (.dedent :: rest) inner
  | .commaSep children => by
      rw [steps, nested]
      exact lexemesFrom_stepsCommas depth b true rest children
  | .noIn inner => by rw [steps, nested]; exact lexemesFrom_steps depth true rest inner
  | .containsIn inner => by
      rw [steps, nested]
      split
      · exact lexemesFrom_enclosed depth _ _
          (fun rest => lexemesFrom_steps depth false rest inner) rest
      · exact lexemesFrom_steps depth false rest inner
  | .semicolon | .optionalSemicolon | .space | .lineBreak => by rw [steps, nested]; rfl
  | .marked _ inner => by rw [steps, nested]; exact lexemesFrom_steps depth b rest inner

theorem lexemesFrom_stepsAll (depth : Nat) (b : Bool) (rest : List (Step Lexeme)) :
    (fs : List Fragment) → lexemesFrom depth (stepsAll b fs ++ rest) =
      nestedAll depth b fs ++ lexemesFrom depth rest
  | [] => by rw [stepsAll, nestedAll]; rfl
  | f :: fs => by
      rw [stepsAll, nestedAll, List.append_assoc, lexemesFrom_steps depth b _ f,
        lexemesFrom_stepsAll depth b rest fs, List.append_assoc]

theorem lexemesFrom_stepsLines (depth : Nat) (b first : Bool) (rest : List (Step Lexeme)) :
    (fs : List Fragment) → lexemesFrom depth (stepsLines b first fs ++ rest) =
      nestedLines depth b fs ++ lexemesFrom depth rest
  | [] => by rw [stepsLines, nestedLines]; rfl
  | f :: fs => by
      have separated (steps : List (Step Lexeme)) :
          lexemesFrom depth ((if first then [] else [.lineBreak]) ++ steps) =
            lexemesFrom depth steps := by
        cases first <;> rfl
      rw [stepsLines, nestedLines]
      split
      · exact lexemesFrom_stepsLines depth b first rest fs
      · rw [List.append_assoc, List.append_assoc, separated, lexemesFrom_steps depth b _ f,
          lexemesFrom_stepsLines depth b false rest fs, List.append_assoc]

theorem lexemesFrom_stepsCommas (depth : Nat) (b first : Bool) (rest : List (Step Lexeme)) :
    (fs : List Fragment) → lexemesFrom depth (stepsCommas b first fs ++ rest) =
      nestedCommas depth b first fs ++ lexemesFrom depth rest
  | [] => by rw [stepsCommas, nestedCommas]; rfl
  | f :: fs => by
      have separated (steps : List (Step Lexeme)) :
          lexemesFrom depth ((if first then [] else [.put (.verbatim ","), .space]) ++ steps) =
            (if first then [] else [(depth, .verbatim ",")]) ++ lexemesFrom depth steps := by
        cases first <;> rfl
      rw [stepsCommas, nestedCommas, List.append_assoc, List.append_assoc, separated,
        lexemesFrom_steps depth b _ f, lexemesFrom_stepsCommas depth b false rest fs]
      simp only [List.append_assoc]

end

end Fragment

end EcmaScribe
