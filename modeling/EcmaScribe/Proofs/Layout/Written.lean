/-
# EcmaScribe.Proofs.Layout.Written -- what a stream writes, and what it adds

For any instructions whatsoever, the texts that a stream writes can be told without running it
(`writtenTexts`): every text that is not empty and every number, in order, and a semicolon for
each that may be left out, unless compact output meets a closing brace next.

What the stream adds is blank.  `Stream.run_eq_flatten` says where: nothing before the first
text, at most a gap between two, and one line terminator after the last of readable output.
-/
import EcmaScribe.Proofs.Layout.Gaps
import EcmaScribe.Proofs.Number.Literal

namespace EcmaScribe

set_option autoImplicit false

/-! ## The texts of instructions -/

/-- What an instruction has to write, if that is not empty. -/
def Step.text? (layout : Layout) (step : Step Token) : Option (List Char) :=
  (step.token?.map (Token.writtenText layout)).filter (· ≠ [])

/-- The next instruction that has something to write puts a closing brace.  An optional semicolon
counts as such an instruction: on meeting it, the stream writes the one that was due. -/
def BeforeBrace (layout : Layout) (later : List (Step Token)) : Prop :=
  later.find? (fun step => (step.text? layout).isSome) = some (.put (.text ['\x7d']))

instance (layout : Layout) (later : List (Step Token)) : Decidable (BeforeBrace layout later) :=
  inferInstanceAs (Decidable (_ = _))

/-- What an instruction writes in front of later ones. -/
def Step.textBefore? (layout : Layout) (later : List (Step Token)) (step : Step Token) :
    Option (List Char) :=
  if layout.compact = true ∧ step = .optionalSemicolon ∧ BeforeBrace layout later then none
  else step.text? layout

/-- The depth of indentation after an instruction. -/
def Step.depth (step : Step Token) (depth : Nat) : Nat :=
  match step with
  | .indent => depth + 1
  | .dedent => depth - 1
  | .put _ | .optionalSemicolon | .space | .lineBreak => depth

/-- The texts that instructions write from a depth of indentation on, each with the depth at
which it stands. -/
def writtenTexts (layout : Layout) : Nat → List (Step Token) → List (Nat × List Char)
  | _, [] => []
  | depth, step :: later =>
      (step.textBefore? layout later).toList.map (depth, ·) ++
        writtenTexts layout (step.depth depth) later

/-- Blank text that may stand between two texts, the second at the given depth. -/
inductive Layout.IsGap (layout : Layout) (depth : Nat) : List Char → Prop
  | nothing : IsGap layout depth []
  | space : IsGap layout depth [' ']
  | lineBreak (readable : layout.compact = false) :
      IsGap layout depth (layout.newLine ++ List.replicate (depth * layout.indentWidth) ' ')

/-! ## One text -/

variable {layout : Layout}

/-- Only the brace itself is written as a brace. -/
theorem Token.writtenText_eq_brace_iff (plain : layout.safe = false) {token : Token} :
    token.writtenText layout = ['\x7d'] ↔ token = .text ['\x7d'] := by
  cases token with
  | text chars => simp [writtenText, plain]
  | number value =>
      refine iff_of_false (fun same => ?_) (by simp)
      have digits := value.forall_mem_literal (P := fun c => c ≠ '\x7d') (by decide) (by decide)
        layout.compact
      exact digits '\x7d' (by rw [show value.literal layout.compact = _ from same]; simp) rfl

theorem Step.text?_of_blank {step : Step Token} (blank : step.token? = none) :
    step.text? layout = none := by
  simp [text?, blank]

theorem Step.text?_put (token : Token) :
    (Step.put token).text? layout =
      if token.writtenText layout = [] then none else some (token.writtenText layout) := by
  by_cases blank : token.writtenText layout = [] <;> simp [text?, Step.written?, blank]

theorem Step.text?_optionalSemicolon (plain : layout.safe = false) :
    (Step.optionalSemicolon : Step Token).text? layout = some [';'] := by
  simp [text?, Step.written?, Token.writtenText, plain]

theorem beforeBrace_cons_of_none {step : Step Token} (blank : step.text? layout = none)
    (later : List (Step Token)) :
    BeforeBrace layout (step :: later) ↔ BeforeBrace layout later := by
  unfold BeforeBrace
  rw [List.find?_cons_of_neg (by simp [blank])]

theorem beforeBrace_cons_of_some {step : Step Token} {text : List Char}
    (written : step.text? layout = some text) (later : List (Step Token)) :
    BeforeBrace layout (step :: later) ↔ step = .put (.text ['\x7d']) := by
  unfold BeforeBrace
  rw [List.find?_cons_of_pos (by simp [written]), Option.some.injEq]

theorem writtenTexts_cons (depth : Nat) (step : Step Token) (later : List (Step Token)) :
    writtenTexts layout depth (step :: later) =
      (step.textBefore? layout later).toList.map (depth, ·) ++
        writtenTexts layout (step.depth depth) later := rfl

theorem writtenTexts_cons_of_none {step : Step Token} (blank : step.text? layout = none)
    (depth : Nat) (later : List (Step Token)) : writtenTexts layout depth (step :: later) =
      writtenTexts layout (step.depth depth) later := by
  simp [writtenTexts_cons, Step.textBefore?, blank]

/-- All but a semicolon that may be left out write what they have to write. -/
theorem Step.textBefore?_eq {step : Step Token} (mandatory : step ≠ .optionalSemicolon)
    (later : List (Step Token)) : step.textBefore? layout later = step.text? layout := by
  simp [textBefore?, mandatory]

/-! ## Pieces and texts -/

/-- A token as a lexeme that is spelled like it. -/
def Token.lexeme : Token → Lexeme
  | text chars => .verbatim (String.ofList chars)
  | number value => .number value

@[simp] theorem Token.spell_lexeme (spelling : Spelling) (token : Token) :
    token.lexeme.spell spelling = token := by
  cases token <;> simp [lexeme, Lexeme.spell]

theorem Step.map_spell_lexeme (spelling : Spelling) (steps : List (Step Token)) :
    (steps.map (Step.map Token.lexeme)).map (Step.map (Lexeme.spell spelling)) = steps := by
  rw [List.map_map]
  refine List.map_id'' (fun step => ?_) steps
  cases step <;> simp [Step.map]

/-- A piece that is written for a text at a depth. -/
structure Piece.Writes (layout : Layout) (written : Nat × List Char) (p : Piece) : Prop where
  text : p.text = written.2
  gap : layout.IsGap written.1 p.gap

namespace Stream

variable {spelling : Spelling} {s : Stream}

/-- The gap in front of a token. -/
theorem isGap_gap (quiet : s.Quiet layout) (token : Token) (text : List Char) :
    layout.IsGap s.level (s.gap (layout.forToken token) text) := by
  have newLine : (layout.forToken token).newLine = layout.newLine := by cases token <;> rfl
  have width : (layout.forToken token).indentWidth = layout.indentWidth := by cases token <;> rfl
  unfold gap
  rw [newLine, width]
  split
  · rename_i breaks
    refine .lineBreak (Bool.eq_false_iff.2 fun compact => ?_)
    rw [(quiet compact).2] at breaks
    cases breaks
  · split
    · exact .space
    · exact .nothing

theorem needsSeparator_of_nothing (nothing : s.written = []) (text : List Char) :
    s.needsSeparator text = false := by
  unfold needsSeparator
  rw [nothing]

/-- Before the first text there is no gap. -/
theorem gap_of_nothing (plain : layout.safe = false) (nothing : s.written = [])
    (text : List Char) : s.gap layout text = [] := by
  unfold gap
  rw [needsSeparator_of_nothing nothing, plain, nothing]
  simp

@[simp] theorem level_settleSemicolon (token : List Char) :
    (s.settleSemicolon token).level = s.level := by
  unfold settleSemicolon
  split
  · dsimp only
    split <;> rfl
  · rfl

/-- The semicolon that is due, unless a closing brace is next.  At what depth it stands makes
no difference, since it has no gap. -/
def dueTexts (layout : Layout) (depth : Nat) (later : List (Step Token)) (s : Stream) :
    List (Nat × List Char) :=
  if s.pendingSemicolon = true ∧ ¬ BeforeBrace layout later then [(depth, [';'])] else []

theorem writes_semicolon (depth : Nat) : Piece.Writes layout (depth, [';']) .semicolon :=
  ⟨rfl, .nothing⟩

/-- The semicolon that was due is the piece that settling writes. -/
theorem dueTexts_put (plain : layout.safe = false) {l : Lexeme}
    (written : l.writtenText spelling layout ≠ []) (depth : Nat) (later : List (Step Token)) :
    s.dueTexts layout depth (.put (l.spell spelling) :: later) =
      (s.settlePieces (l.writtenText spelling layout)).map fun p => (depth, p.text) := by
  have text : (Step.put (l.spell spelling)).text? layout = some (l.writtenText spelling layout) := by
    rw [Step.text?_put]
    exact if_neg written
  have brace : BeforeBrace layout (.put (l.spell spelling) :: later) ↔
      l.writtenText spelling layout = ['\x7d'] := by
    rw [beforeBrace_cons_of_some text, Step.put.injEq, ← Token.writtenText_eq_brace_iff plain]
    rfl
  simp only [dueTexts, settlePieces, brace]
  by_cases pending : s.pendingSemicolon = true <;>
    by_cases closes : l.writtenText spelling layout = ['\x7d'] <;>
      simp [pending, closes, Piece.semicolon]

theorem forall₂_settlePieces (depth : Nat) (token : List Char) :
    List.Forall₂ (Piece.Writes layout) ((s.settlePieces token).map fun p => (depth, p.text))
      (s.settlePieces token) := by
  unfold settlePieces
  split
  · split
    · exact .nil
    · exact .cons (writes_semicolon depth) .nil
  · exact .nil

/-- The pieces of one token are the semicolon that was due and the token. -/
theorem forall₂_put (plain : layout.safe = false) {l : Lexeme} {depth : Nat}
    {later : List (Step Token)} {rest : List Piece} (quiet : s.Quiet layout)
    (next : ∀ depth, List.Forall₂ (Piece.Writes layout)
      ((s.put layout (l.spell spelling)).dueTexts layout depth later ++
        writtenTexts layout s.level later) rest) :
    List.Forall₂ (Piece.Writes layout)
      (s.dueTexts layout depth (.put (l.spell spelling) :: later) ++
        writtenTexts layout s.level (.put (l.spell spelling) :: later))
      (s.putPieces spelling layout l ++ rest) := by
  by_cases blank : l.writtenText spelling layout = []
  · have none : (Step.put (l.spell spelling)).text? layout = none := by
      rw [Step.text?_put]
      exact if_pos blank
    have before := beforeBrace_cons_of_none none later
    have unchanged := next depth
    rw [put_of_blank blank] at unchanged
    rw [writtenTexts_cons_of_none none]
    simpa [putPieces, blank, dueTexts, before, Step.depth] using unchanged
  · have own : (Step.put (l.spell spelling)).textBefore? layout later =
        some (l.writtenText spelling layout) := by
      rw [Step.textBefore?_eq (by simp), Step.text?_put]
      exact if_neg blank
    have after := next depth
    have nothing : (s.put layout (l.spell spelling)).dueTexts layout depth later = [] := by
      simp [dueTexts, pendingSemicolon_put blank]
    rw [nothing, List.nil_append] at after
    have gap := isGap_gap (quiet.settle (l.writtenText spelling layout)) (l.spell spelling)
      (l.writtenText spelling layout)
    rw [level_settleSemicolon] at gap
    rw [dueTexts_put plain blank, writtenTexts_cons, own]
    simp only [putPieces, List.isEmpty_iff, blank, if_false, List.append_assoc]
    exact List.rel_append (forall₂_settlePieces depth _) (.cons ⟨rfl, gap⟩ after)

theorem level_put (token : Token) : (s.put layout token).level = s.level := by
  rw [put_eq_writeToken]
  unfold writeToken
  split
  · rfl
  · exact level_settleSemicolon _

theorem level_stepLexeme (step : Step Lexeme) : (s.stepLexeme spelling layout step).level =
    (step.map (Lexeme.spell spelling)).depth s.level := by
  cases step with
  | put l => exact level_put _
  | optionalSemicolon =>
      simp only [stepLexeme, Step.map, Stream.step, putOptionalSemicolon, Step.depth]
      split
      · dsimp only
        split <;> rfl
      · exact level_put _
  | space | lineBreak =>
      simp only [stepLexeme, Step.map, Stream.step, Step.depth]
      split <;> rfl
  | indent | dedent => rfl

/-- An instruction that writes nothing leaves the semicolon due that was. -/
theorem forall₂_blank {step : Step Lexeme} (blank : step.lexeme? = none) {depth : Nat}
    {later : List (Step Token)} {rest : List Piece}
    (next : List.Forall₂ (Piece.Writes layout)
      ((s.stepLexeme spelling layout step).dueTexts layout depth later ++
        writtenTexts layout ((step.map (Lexeme.spell spelling)).depth s.level) later) rest) :
    List.Forall₂ (Piece.Writes layout)
      (s.dueTexts layout depth (step.map (Lexeme.spell spelling) :: later) ++
        writtenTexts layout s.level (step.map (Lexeme.spell spelling) :: later)) rest := by
  have none : (step.map (Lexeme.spell spelling)).text? layout = none := by
    refine Step.text?_of_blank ?_
    cases step <;> first | rfl | cases blank
  have pending : (s.stepLexeme spelling layout step).pendingSemicolon = s.pendingSemicolon := by
    cases step with
    | put | optionalSemicolon => cases blank
    | space | lineBreak =>
        simp only [stepLexeme, Step.map, Stream.step]
        split <;> rfl
    | indent | dedent => rfl
  rw [writtenTexts_cons_of_none none]
  simpa only [dueTexts, beforeBrace_cons_of_none none, pending] using next

/-- In compact output, a semicolon that may be left out is due until the next text. -/
theorem dueTexts_putOptionalSemicolon (plain : layout.safe = false)
    (compact : layout.compact = true) (later : List (Step Token)) :
    (s.putOptionalSemicolon layout).dueTexts layout s.level later =
      (Step.optionalSemicolon.textBefore? layout later).toList.map (s.level, ·) := by
  have written := Step.text?_optionalSemicolon plain
  by_cases brace : BeforeBrace layout later <;>
    simp [dueTexts, putOptionalSemicolon, Step.textBefore?, compact, brace, written]

/-- In readable output it is a semicolon like any other. -/
theorem writtenTexts_optionalSemicolon (readable : layout.compact = false) (depth : Nat)
    (later : List (Step Token)) :
    writtenTexts layout depth (.optionalSemicolon :: later) =
      writtenTexts layout depth (.put (.text [';']) :: later) := by
  have same : (Step.optionalSemicolon : Step Token).text? layout =
      (Step.put (.text [';'])).text? layout := rfl
  simp [writtenTexts_cons, Step.textBefore?, readable, same, Step.depth]

/-- A semicolon that may be left out makes due the one before it. -/
theorem forall₂_optionalSemicolon (plain : layout.safe = false) {depth : Nat}
    {later : List (Step Token)} {rest : List Piece} (quiet : s.Quiet layout)
    (next : ∀ depth, List.Forall₂ (Piece.Writes layout)
      ((s.putOptionalSemicolon layout).dueTexts layout depth later ++
        writtenTexts layout s.level later) rest) :
    List.Forall₂ (Piece.Writes layout)
      (s.dueTexts layout depth (.optionalSemicolon :: later) ++
        writtenTexts layout s.level (.optionalSemicolon :: later))
      (s.stepPieces spelling layout .optionalSemicolon ++ rest) := by
  have apart (step : Step Token) (written : step.text? layout = some [';'])
      (other : step ≠ .put (.text ['\x7d'])) : ¬ BeforeBrace layout (step :: later) := by
    rwa [beforeBrace_cons_of_some written]
  have due := apart .optionalSemicolon (Step.text?_optionalSemicolon plain) (by simp)
  cases compact : layout.compact with
  | true =>
      have after := next s.level
      rw [dueTexts_putOptionalSemicolon plain compact] at after
      rw [writtenTexts_cons]
      simp only [dueTexts, stepPieces, compact, if_true]
      by_cases pending : s.pendingSemicolon = true
      · simpa [pending, due, Step.depth] using ⟨writes_semicolon depth, after⟩
      · simpa [pending, Step.depth] using after
  | false =>
      have put : s.putOptionalSemicolon layout =
          s.put layout ((Lexeme.verbatim ";").spell spelling) :=
        stepLexeme_optionalSemicolon compact
      have dueAsPut := apart (.put ((Lexeme.verbatim ";").spell spelling))
        (Step.text?_optionalSemicolon plain) (by simp [Lexeme.spell])
      have dues : s.dueTexts layout depth (.optionalSemicolon :: later) =
          s.dueTexts layout depth (.put ((Lexeme.verbatim ";").spell spelling) :: later) := by
        simp only [dueTexts, due, dueAsPut]
      rw [put] at next
      rw [dues, writtenTexts_optionalSemicolon compact, stepPieces, if_neg (by simp [compact])]
      exact forall₂_put plain quiet next

/-- **What is written.**  The pieces from a stream on are the semicolon that was due and the texts
of the instructions. -/
theorem forall₂_pieces (plain : layout.safe = false) (steps : List (Step Lexeme)) (depth : Nat)
    (quiet : s.Quiet layout) :
    List.Forall₂ (Piece.Writes layout)
      (s.dueTexts layout depth (steps.map (Step.map (Lexeme.spell spelling))) ++
        writtenTexts layout s.level (steps.map (Step.map (Lexeme.spell spelling))))
      (s.piecesFrom spelling layout steps) := by
  induction steps generalizing s depth with
  | nil =>
      have last : ¬ BeforeBrace layout [] := by simp [BeforeBrace]
      unfold piecesFrom
      split
      · rename_i pending
        simpa [dueTexts, pending, last, writtenTexts] using writes_semicolon depth
      · rename_i none
        simp [dueTexts, none, writtenTexts]
  | cons step steps ih =>
      have quiet' : (s.stepLexeme spelling layout step).Quiet layout := quiet.stepLexeme step
      have next (depth : Nat) := ih depth quiet'
      rw [level_stepLexeme] at next
      rw [piecesFrom, List.map_cons]
      cases step with
      | put l => exact forall₂_put plain quiet next
      | optionalSemicolon => exact forall₂_optionalSemicolon plain quiet next
      | space | lineBreak | indent | dedent => exact forall₂_blank rfl (next depth)

/-- The first piece of a token has no gap in front. -/
theorem gap_head?_putPieces (plain : layout.safe = false) (nothing : s.written = []) (l : Lexeme) :
    ∀ p ∈ (s.putPieces spelling layout l).head?, p.gap = [] := by
  have unsanitized : (layout.forToken (l.spell spelling)).safe = false := by
    cases l.spell spelling with
    | text => exact plain
    | number => rfl
  intro p first
  unfold putPieces at first
  dsimp only at first
  split at first
  · cases first
  · unfold settlePieces settleSemicolon at first
    split at first
    · split at first
      · cases first
        exact gap_of_nothing unsanitized nothing _
      · cases first
        rfl
    · cases first
      exact gap_of_nothing unsanitized nothing _

theorem gap_head?_stepPieces (plain : layout.safe = false) (nothing : s.written = [])
    (step : Step Lexeme) : ∀ p ∈ (s.stepPieces spelling layout step).head?, p.gap = [] := by
  cases step with
  | put l => exact gap_head?_putPieces plain nothing l
  | optionalSemicolon =>
      simp only [stepPieces]
      split
      · split
        · intro p first
          cases first
          rfl
        · simp
      · exact gap_head?_putPieces plain nothing _
  | space | lineBreak | indent | dedent => simp [stepPieces]

/-- The first piece of all has no gap in front. -/
theorem gap_head?_pieces (plain : layout.safe = false) (steps : List (Step Lexeme))
    (nothing : s.written = []) : ∀ p ∈ (s.piecesFrom spelling layout steps).head?, p.gap = [] := by
  induction steps generalizing s with
  | nil =>
      unfold piecesFrom
      split
      · intro p first
        cases first
        rfl
      · simp
  | cons step steps ih =>
      rw [piecesFrom]
      cases own : s.stepPieces spelling layout step with
      | nil =>
          have unchanged : (s.stepLexeme spelling layout step).written = [] := by
            have same : (s.stepLexeme spelling layout step).text = _ := text_step step
            rw [own] at same
            simpa [text, nothing] using same
          exact ih unchanged
      | cons q more =>
          intro p first
          cases first
          have isFirst : q ∈ (s.stepPieces spelling layout step).head? := by
            rw [own]
            rfl
          exact gap_head?_stepPieces plain nothing step q isFirst

/-- The text that pieces written for texts make up. -/
theorem joined_eq_flatten {written : List (Nat × List Char)} {pieces : List Piece}
    (h : List.Forall₂ (Piece.Writes layout) written pieces) :
    Piece.joined pieces =
      (List.zipWith (fun gap written => gap ++ written.2)
        (pieces.map (·.gap)) written).flatten := by
  induction h with
  | nil => rfl
  | cons writes _ ih => simp [ih, writes.text]

/-- The pieces make up no text exactly if there are no texts to write. -/
theorem joined_eq_nil_iff {written : List (Nat × List Char)} {pieces : List Piece}
    (nonempty : ∀ p ∈ pieces, p.text ≠ []) (h : List.Forall₂ (Piece.Writes layout) written pieces) :
    Piece.joined pieces = [] ↔ written = [] := by
  cases h with
  | nil => simp
  | cons writes rest => simp [nonempty _ (List.mem_cons_self ..)]

/-- **Nothing is lost, doubled or moved, and only blank text is added.**  Whatever the
instructions are, a stream writes their texts in order: with nothing before the first, a gap
before each other, and one line terminator at the end of readable output that is not empty. -/
theorem run_eq_flatten (options : PrintOptions) (steps : List (Step Token)) :
    ∃ gaps : List (List Char),
      List.Forall₂ (fun written gap => (Layout.ofOptions options).IsGap written.1 gap)
        (writtenTexts (.ofOptions options) 0 steps) gaps ∧
      (∀ gap ∈ gaps.head?, gap = []) ∧
      run (.ofOptions options) steps =
        (List.zipWith (fun gap written => gap ++ written.2) gaps
          (writtenTexts (.ofOptions options) 0 steps)).flatten ++
        if options.mode = .pretty ∧ writtenTexts (.ofOptions options) 0 steps ≠ [] then
          options.newLine.terminator else [] := by
  generalize layoutEq : Layout.ofOptions options = layout
  have plain : layout.safe = false := by rw [← layoutEq]; rfl
  let lexemes := steps.map (Step.map Token.lexeme)
  have spelled : lexemes.map (Step.map (Lexeme.spell .plain)) = steps :=
    Step.map_spell_lexeme _ steps
  have writes : List.Forall₂ (Piece.Writes layout) (writtenTexts layout 0 steps)
      (start.piecesFrom .plain layout lexemes) := by
    rw [← spelled]
    exact forall₂_pieces (s := start) plain lexemes 0 fun _ => ⟨rfl, rfl⟩
  have text : run layout steps = Piece.joined (start.piecesFrom .plain layout lexemes) ++
      ending layout (Piece.joined (start.piecesFrom .plain layout lexemes)) := by
    rw [← spelled]
    exact finish_runFrom (s := start) lexemes
  have first : ∀ p ∈ (start.piecesFrom .plain layout lexemes).head?, p.gap = [] :=
    gap_head?_pieces plain lexemes rfl
  have nonempty (p : Piece) (member : p ∈ start.piecesFrom .plain layout lexemes) : p.text ≠ [] :=
    (text_of_mem_pieces lexemes p member).2
  generalize start.piecesFrom .plain layout lexemes = pieces at writes first nonempty text
  refine ⟨pieces.map (·.gap), ?_, ?_, ?_⟩
  · rw [List.forall₂_map_right_iff]
    exact writes.imp fun _ _ h => h.gap
  · intro gap member
    rw [List.head?_map, Option.mem_def, Option.map_eq_some_iff] at member
    obtain ⟨p, isFirst, rfl⟩ := member
    exact first p isFirst
  · have written : Piece.joined pieces = [] ↔ writtenTexts layout 0 steps = [] :=
      joined_eq_nil_iff nonempty writes
    have readable : layout.compact = false ↔ options.mode = .pretty := by
      rw [← layoutEq]
      simp [Layout.ofOptions]
    have newLine : layout.newLine = options.newLine.terminator := by rw [← layoutEq]; rfl
    rw [text, ← joined_eq_flatten writes]
    simp [ending, readable, written, newLine]

/-- Of two semicolons that may be left out before a brace, compact output leaves out one. -/
example : writtenTexts (.ofOptions .compact) 0
    [.optionalSemicolon, .indent, .optionalSemicolon, .space, .put (.text ['\x7d'])] =
      [(0, [';']), (1, ['\x7d'])] := by decide

end Stream

end EcmaScribe
