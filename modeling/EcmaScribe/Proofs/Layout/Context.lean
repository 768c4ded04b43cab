/-
# EcmaScribe.Proofs.Layout.Context -- what stands in front of a text plays no part

When a stream decides about the gap in front of a token, it looks back at the last characters that
it has written.  No gap is needed next to a backtick, and none next to a brace (`IsFence`), unless
a space, a break or a semicolon is due.  So

* next to a fence, an idle stream appends a token as it is (`Stream.put_of_fence`);
* behind a fence, a stream writes what it would write with nothing in front, provided that it
  starts with a token (`Stream.runFrom_behind_of_put`).

Of a script, too, a part is written by a stream that has written what stands in front
(`Node.exists_print_of_steps`).
-/
import EcmaScribe.Proofs.Layout.Safety
import EcmaScribe.Proofs.Layout.Written

namespace EcmaScribe

set_option autoImplicit false

open Text

/-! ## Fences -/

/-- A character that joins no token on either side of it. -/
def IsFence (c : Char) : Prop := c = '\x60' ∨ c = '\x7b' ∨ c = '\x7d'

namespace IsFence

variable {c : Char}

theorem foreign (fence : IsFence c) :
    c ≠ '<' ∧ c ≠ '/' ∧ ∀ letter ∈ scriptWord, isLetter c letter = false := by
  rcases fence with rfl | rfl | rfl <;> decide

theorem noSign (fence : IsFence c) : isIdentifierPart c = false ∧
    ∀ sign ∈ ['+', '-', '/', '<', '.', '!', '*', '>'], c ≠ sign := by
  rcases fence with rfl | rfl | rfl <;> decide

/-- An opener behind a fence is one without what stands in front of the fence. -/
theorem straddles_behind (fence : IsFence c) (far near right : List Char) :
    Straddles (far ++ c :: near) right ↔ Straddles near right := by
  have regroup : far ++ c :: near ++ right = (far ++ [c]) ++ (near ++ right) := by simp
  constructor
  · rintro ⟨i, n, opener, before, after⟩
    simp only [List.length_append, List.length_cons] at before after
    rw [regroup] at opener
    by_cases inFront : i ≤ far.length
    · exact absurd ⟨i, n, opener, by simp; omega, by simp; omega⟩
        (not_straddles_after fence.foreign far (near ++ right))
    · obtain ⟨j, rfl⟩ : ∃ j, i = (far ++ [c]).length + j := ⟨i - (far.length + 1), by simp; omega⟩
      rw [List.drop_append, List.drop_of_length_le (by omega), List.nil_append,
        Nat.add_sub_cancel_left] at opener
      simp only [List.length_append, List.length_singleton] at before after
      exact ⟨j, n, opener, by omega, by omega⟩
  · rintro ⟨i, n, opener, before, after⟩
    refine ⟨(far ++ [c]).length + i, n, ?_, by simp; omega, by simp; omega⟩
    rwa [regroup, List.drop_append, List.drop_of_length_le (by omega), List.nil_append,
      Nat.add_sub_cancel_left]

theorem formsOpenerAfter_behind (fence : IsFence c) (near far right : List Char) :
    formsOpenerAfter (near ++ c :: far) right = formsOpenerAfter near right := by
  rw [Bool.eq_iff_iff, formsOpenerAfter_eq_true_iff, formsOpenerAfter_eq_true_iff]
  simpa using fence.straddles_behind far.reverse near.reverse right

theorem formsOpenerAfter_before (fence : IsFence c) (written rest : List Char) :
    formsOpenerAfter written (c :: rest) = false := by
  rw [Bool.eq_false_iff, ne_eq, formsOpenerAfter_eq_true_iff]
  exact not_straddles_of_head rfl fence.foreign.2.1 fence.foreign.2.2

end IsFence

theorem Text.formsOpenerAfter_nil (right : List Char) : formsOpenerAfter [] right = false := by
  rw [Bool.eq_false_iff, ne_eq, formsOpenerAfter_eq_true_iff]
  rintro ⟨i, n, -, before, -⟩
  exact Nat.not_lt_zero i before

/-! ## Tokens next to a fence -/

namespace Stream

/-- Nothing is due. -/
structure Idle (s : Stream) : Prop where
  space : s.pendingSpace = false
  lineBreak : s.pendingBreak = false
  semicolon : s.pendingSemicolon = false

/-- A fence has been written last. -/
structure Fenced (s : Stream) : Prop where
  ends : ∃ c before, s.written = c :: before ∧ IsFence c
  integer : s.lastInteger = false

variable {spelling : Spelling} {layout : Layout} {s : Stream} {c : Char}

theorem needsSeparator_nil : s.needsSeparator [] = false := by
  unfold needsSeparator
  split
  · rename_i impossible
    cases impossible
  · rfl

theorem needsSeparator_before (fence : IsFence c) (rest : List Char) :
    s.needsSeparator (c :: rest) = false := by
  obtain ⟨noPart, others⟩ := fence.noSign
  simp only [List.forall_mem_cons] at others
  cases written : s.written with
  | nil => exact needsSeparator_of_nothing written _
  | cons last before =>
      rw [needsSeparator_cons written]
      simp [noPart, others]

theorem needsSeparator_after (fence : IsFence c) {before : List Char}
    (ends : s.written = c :: before) (integer : s.lastInteger = false) (token : List Char) :
    s.needsSeparator token = false := by
  obtain ⟨noPart, others⟩ := fence.noSign
  simp only [List.forall_mem_cons] at others
  cases token with
  | nil => exact needsSeparator_nil
  | cons next rest =>
      rw [needsSeparator_cons ends]
      simp [noPart, others, integer]

/-- The token stands next to a fence. -/
def Beside (s : Stream) (text : List Char) : Prop :=
  s.Fenced ∨ ∃ c rest, text = c :: rest ∧ IsFence c

theorem gap_of_fence (idle : s.Idle) {text : List Char} (beside : s.Beside text) :
    s.gap layout text = [] := by
  have apart : s.needsSeparator text = false ∧ formsOpenerAfter s.written text = false := by
    rcases beside with ⟨⟨c, before, ends, fence⟩, integer⟩ | ⟨c, rest, rfl, fence⟩
    · refine ⟨needsSeparator_after fence ends integer text, ?_⟩
      rw [ends, ← List.nil_append (c :: before), fence.formsOpenerAfter_behind]
      exact formsOpenerAfter_nil text
    · exact ⟨needsSeparator_before fence rest, fence.formsOpenerAfter_before _ rest⟩
  simp [gap, idle.space, idle.lineBreak, apart]

/-- **Next to a fence** a token is written as it is. -/
theorem put_of_fence (idle : s.Idle) {l : Lexeme} (written : l.writtenText spelling layout ≠ [])
    (beside : s.Beside (l.writtenText spelling layout)) :
    s.put layout (l.spell spelling) = s.append (l.writtenText spelling layout) := by
  have settled : s.settleSemicolon (l.writtenText spelling layout) = s := by
    simp [settleSemicolon, idle.semicolon]
  rw [put_of_written written, settled, gap_of_fence idle beside]
  obtain ⟨space, lineBreak, -⟩ := idle
  simp [append, space, lineBreak]

theorem Idle.append (idle : s.Idle) (text : List Char) : (s.append text).Idle :=
  ⟨idle.space, idle.lineBreak, idle.semicolon⟩

theorem idle_put {l : Lexeme} (written : l.writtenText spelling layout ≠ []) :
    (s.put layout (l.spell spelling)).Idle := by
  refine ⟨?_, ?_, pendingSemicolon_put written⟩
  · rw [put_of_written written]
    rfl
  · rw [put_of_written written]
    rfl

theorem lastInteger_put {l : Lexeme} (written : l.writtenText spelling layout ≠ []) :
    (s.put layout (l.spell spelling)).lastInteger =
      (l.writtenText spelling layout).all Char.isDigit := by
  rw [put_of_written written]
  rfl

/-- A token that is written ends the text. -/
theorem exists_text_put {l : Lexeme} (written : l.writtenText spelling layout ≠ []) :
    ∃ before, s.text <+: before ∧
      (s.put layout (l.spell spelling)).text = before ++ l.writtenText spelling layout := by
  refine ⟨s.text ++ Piece.joined (s.settlePieces (l.writtenText spelling layout)) ++
    (s.settleSemicolon (l.writtenText spelling layout)).gap (layout.forToken (l.spell spelling))
      (l.writtenText spelling layout), ?_, ?_⟩
  · rw [List.append_assoc]
    exact List.prefix_append _ _
  · rw [text_put]
    simp [putPieces, written]

/-- When nothing is due, only a gap stands in front of a token. -/
theorem text_put_of_idle (idle : s.Idle) {l : Lexeme}
    (written : l.writtenText spelling layout ≠ []) :
    (s.put layout (l.spell spelling)).text = s.text ++
      s.gap (layout.forToken (l.spell spelling)) (l.writtenText spelling layout) ++
        l.writtenText spelling layout := by
  have settled : s.settleSemicolon (l.writtenText spelling layout) = s := by
    simp [settleSemicolon, idle.semicolon]
  rw [text_put]
  simp [putPieces, written, settlePieces, idle.semicolon, settled]

/-- A text that ends in a fence. -/
theorem fenced_append (fence : IsFence c) (text : List Char) : (s.append (text ++ [c])).Fenced where
  ends := ⟨c, text.reverse ++ s.written, by simp [append], fence⟩
  integer := by
    have noDigit : c.isDigit = false := by rcases fence with rfl | rfl | rfl <;> decide
    simp [append, noDigit]

/-! ## Streams behind a text -/

/-- The stream with further text in front. -/
def behind (base : List Char) (s : Stream) : Stream := { s with written := s.written ++ base }

/-- A stream that has written nothing yet. -/
def fresh (level : Nat) : Stream := { start with level := level }

@[simp] theorem text_behind (base : List Char) : (s.behind base).text = base.reverse ++ s.text := by
  simp [behind, text]

/-- An idle stream goes on behind its text like a new one. -/
theorem Idle.eq_behind (idle : s.Idle) (integer : s.lastInteger = false) :
    s = (fresh s.level).behind s.written := by
  obtain ⟨space, lineBreak, semicolon⟩ := idle
  cases s
  simp_all [behind, fresh, start]

/-- Nothing is asked of the stream in front of its first token. -/
def Unasked (s : Stream) : Prop :=
  s.written = [] → s.pendingSpace = false ∧ s.pendingBreak = false ∧ s.lastInteger = false

theorem unasked_fresh (level : Nat) : (fresh level).Unasked := fun _ => ⟨rfl, rfl, rfl⟩

theorem needsSeparator_behind (fence : IsFence c) (unasked : s.Unasked) (base token : List Char) :
    (s.behind (c :: base)).needsSeparator token = s.needsSeparator token := by
  cases written : s.written with
  | nil =>
      have ends : (s.behind (c :: base)).written = c :: base := by simp [behind, written]
      rw [needsSeparator_after fence ends (unasked written).2.2, needsSeparator_of_nothing written]
  | cons last before =>
      cases token with
      | nil => rw [needsSeparator_nil, needsSeparator_nil]
      | cons next rest =>
          have longer : (s.behind (c :: base)).written = last :: (before ++ c :: base) := by
            simp [behind, written]
          have second : (before ++ c :: base).head? = some '-' ↔ before.head? = some '-' := by
            cases before with
            | nil => simpa using fence.noSign.2 '-' (by simp)
            | cons => rfl
          rw [needsSeparator_cons longer, needsSeparator_cons written]
          simp only [second]
          rfl

theorem gap_behind (fence : IsFence c) (unasked : s.Unasked) (base text : List Char) :
    (s.behind (c :: base)).gap layout text = s.gap layout text := by
  have apart := needsSeparator_behind fence unasked base text
  have opener : formsOpenerAfter (s.behind (c :: base)).written text =
      formsOpenerAfter s.written text := fence.formsOpenerAfter_behind s.written base text
  unfold gap
  rw [apart, opener]
  cases written : s.written with
  | nil =>
      obtain ⟨space, lineBreak, -⟩ := unasked written
      simp [behind, space, lineBreak]
  | cons => simp [behind, written]

theorem settleSemicolon_behind (base token : List Char) :
    (s.behind base).settleSemicolon token = (s.settleSemicolon token).behind base := by
  unfold settleSemicolon
  cases pending : s.pendingSemicolon with
  | false => simp [behind, pending]
  | true =>
      simp only [behind, pending, if_true]
      split <;> simp [append]

theorem Unasked.settle (unasked : s.Unasked) (token : List Char) :
    (s.settleSemicolon token).Unasked := by
  unfold settleSemicolon
  split
  · dsimp only
    split
    · exact unasked
    · exact fun nothing => by simp [append] at nothing
  · exact unasked

theorem put_behind (fence : IsFence c) (unasked : s.Unasked) (base : List Char) (token : Token) :
    (s.behind (c :: base)).put layout token = (s.put layout token).behind (c :: base) := by
  rw [put_eq_writeToken, put_eq_writeToken]
  generalize layout.forToken token = layout
  generalize token.writtenText _ = text
  unfold writeToken
  split
  · rfl
  · dsimp only
    rw [settleSemicolon_behind, gap_behind fence (unasked.settle text)]
    simp [behind, append]

/-- Behind a text, an instruction has the same effect. -/
theorem step_behind (fence : IsFence c) (written : s.written ≠ []) (base : List Char)
    (step : Step Token) :
    (s.behind (c :: base)).step layout step = (s.step layout step).behind (c :: base) := by
  have unasked : s.Unasked := fun nothing => absurd nothing written
  cases step with
  | put token => exact put_behind fence unasked base token
  | optionalSemicolon =>
      simp only [Stream.step, putOptionalSemicolon]
      split
      · cases pending : s.pendingSemicolon <;> simp [behind, append, pending]
      · exact put_behind fence unasked base _
  | space | lineBreak =>
      simp only [Stream.step]
      split <;> rfl
  | indent | dedent => rfl

theorem runFrom_behind (fence : IsFence c) (written : s.written ≠ []) (base : List Char)
    (steps : List (Step Token)) : (s.behind (c :: base)).runFrom layout steps =
      (s.runFrom layout steps).behind (c :: base) := by
  induction steps generalizing s with
  | nil => rfl
  | cons step steps ih =>
      have next : (s.step layout step).written ≠ [] := fun nothing => by
        have kept := prefix_step s layout step
        simp [text, nothing, written] at kept
      show ((s.behind (c :: base)).step layout step).runFrom layout steps = _
      rw [step_behind fence written]
      exact ih next

/-- **Behind a fence** a stream writes what it would write with nothing in front. -/
theorem runFrom_behind_of_put (fence : IsFence c) (unasked : s.Unasked) (base : List Char)
    {l : Lexeme} (written : l.writtenText spelling layout ≠ []) (steps : List (Step Token)) :
    (s.behind (c :: base)).runFrom layout (.put (l.spell spelling) :: steps) =
      (s.runFrom layout (.put (l.spell spelling) :: steps)).behind (c :: base) := by
  have next : (s.put layout (l.spell spelling)).written ≠ [] := by
    rw [put_of_written written]
    simp [append, written]
  show ((s.behind (c :: base)).put layout (l.spell spelling)).runFrom layout steps = _
  rw [put_behind fence unasked]
  exact runFrom_behind fence next base steps

/-! ## Instructions over lexemes -/

/-- The stream after instructions, their lexemes spelled. -/
def after (spelling : Spelling) (layout : Layout) (s : Stream) (steps : List (Step Lexeme)) :
    Stream :=
  s.runFrom layout (steps.map (Step.map (Lexeme.spell spelling)))

@[simp] theorem after_nil : s.after spelling layout [] = s := rfl

@[simp] theorem after_cons (step : Step Lexeme) (steps : List (Step Lexeme)) :
    s.after spelling layout (step :: steps) =
      (s.stepLexeme spelling layout step).after spelling layout steps := rfl

@[simp] theorem after_append (l m : List (Step Lexeme)) :
    s.after spelling layout (l ++ m) = (s.after spelling layout l).after spelling layout m := by
  rw [after, List.map_append, runFrom, List.foldl_append]
  rfl

theorem prefix_after (steps : List (Step Lexeme)) :
    s.text <+: (s.after spelling layout steps).text := by
  induction steps generalizing s with
  | nil => exact List.prefix_refl _
  | cons step steps ih => exact (prefix_step s layout _).trans ih

end Stream

/-! ## Scripts -/

/-- How the options have lexemes spelled. -/
def PrintOptions.spelling (options : PrintOptions) : Spelling :=
  if options.mode = .webSafe then .webSafe else .plain

/-- How the options have a script laid out. -/
def PrintOptions.layout (options : PrintOptions) : Layout :=
  if options.mode = .webSafe then .webSafe else .ofOptions options

namespace PrintOptions

variable {options other : PrintOptions}

theorem layout_of_webSafe (mode : options.mode = .webSafe) :
    options.layout = .webSafe := if_pos mode

theorem layout_of_ne (mode : options.mode ≠ .webSafe) :
    options.layout = .ofOptions options := if_neg mode

theorem spelling_eq (mode : other.mode = options.mode) :
    other.spelling = options.spelling := by
  unfold PrintOptions.spelling
  rw [mode]

theorem compact_layout :
    options.layout.compact = false ↔ options.mode = .pretty := by
  by_cases mode : options.mode = .webSafe
  · rw [layout_of_webSafe mode, mode]
    decide
  · rw [layout_of_ne mode]
    simp [Layout.ofOptions]

end PrintOptions

namespace Node

theorem print_eq_render (program : Program) (options : PrintOptions) :
    program.print options = program.render options.spelling options.layout := by
  unfold print PrintOptions.spelling PrintOptions.layout
  cases options.mode <;> rfl

/-- What a part of a script leaves in the stream stands in the text of the script. -/
theorem exists_print_of_steps {program : Program} {front inner back : List (Step Lexeme)}
    (whole : program.fragment.steps false = front ++ inner ++ back) (options : PrintOptions) :
    let s := Stream.start.after options.spelling options.layout front
    ∃ after, program.print options =
      (s.after options.spelling options.layout inner).text ++ after := by
  intro s
  obtain ⟨after, done⟩ := Stream.prefix_finish_runFrom
    (s.after options.spelling options.layout inner) options.layout
    (back.map (Step.map (Lexeme.spell options.spelling)))
  refine ⟨after, ?_⟩
  rw [print_eq_render, done]
  show (Stream.start.after options.spelling options.layout
    (program.fragment.steps false)).finish options.layout = _
  rw [whole, Stream.after_append, Stream.after_append]
  rfl

end Node

end EcmaScribe
