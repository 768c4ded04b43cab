/-
# EcmaScribe.Proofs.Layout.Gaps -- what a stream leaves between two pieces

The gap in front of a piece is decided by the stream that writes it, and of the text written so
far only the piece before counts.  `Piece.Follows` says so of two pieces, and
`Stream.isChain_pieces` proves it of all neighbours.
-/
import EcmaScribe.Proofs.Layout.Pieces

namespace EcmaScribe

set_option autoImplicit false

/-- The stream's text ends in a piece, and the stream knows whether that is an integer. -/
structure Stream.EndsIn (s : Stream) (p : Piece) : Prop where
  ends : ∃ front, s.written = p.text.reverse ++ front
  nonempty : p.text ≠ []
  integer : s.lastInteger = p.text.all Char.isDigit

/-- Compact output leaves no blank space on its own account. -/
def Stream.Quiet (layout : Layout) (s : Stream) : Prop :=
  layout.compact = true → s.pendingSpace = false ∧ s.pendingBreak = false

/-- The gap before the second piece is the one that a stream leaves after the first. -/
def Piece.Follows (spelling : Spelling) (layout : Layout) (p q : Piece) : Prop :=
  q = semicolon ∨ ∃ s : Stream, s.EndsIn p ∧ s.Quiet layout ∧
    q.gap = s.gap (layout.forToken (q.lexeme.spell spelling)) q.text

namespace Stream

variable {spelling : Spelling} {layout : Layout} {s : Stream}

theorem endsIn_semicolon (t : Stream) : (t.append [';']).EndsIn .semicolon :=
  ⟨⟨t.written, rfl⟩, by simp [Piece.semicolon], rfl⟩

/-- Settling writes the semicolon or leaves the text alone. -/
theorem settle_cases (token : List Char) :
    s.settlePieces token = [.semicolon] ∧ (s.settleSemicolon token).EndsIn .semicolon ∨
      s.settlePieces token = [] ∧ ∀ p, s.EndsIn p → (s.settleSemicolon token).EndsIn p := by
  unfold settlePieces settleSemicolon
  split
  · dsimp only
    split
    · exact .inr ⟨rfl, fun p h => ⟨h.ends, h.nonempty, h.integer⟩⟩
    · exact .inl ⟨rfl, endsIn_semicolon _⟩
  · exact .inr ⟨rfl, fun p h => h⟩

theorem Quiet.settle (h : s.Quiet layout) (token : List Char) :
    (s.settleSemicolon token).Quiet layout := by
  unfold settleSemicolon
  split
  · dsimp only
    split
    · exact h
    · exact h
  · exact h

theorem Quiet.put (h : s.Quiet layout) (spelling : Spelling) (l : Lexeme) :
    (s.put layout (l.spell spelling)).Quiet layout := by
  by_cases blank : l.writtenText spelling layout = []
  · rwa [put_of_blank blank]
  · rw [put_of_written blank]
    exact fun _ => ⟨rfl, rfl⟩

theorem Quiet.stepLexeme (h : s.Quiet layout) (step : Step Lexeme) :
    (s.stepLexeme spelling layout step).Quiet layout := by
  cases step with
  | put l => exact h.put spelling l
  | optionalSemicolon =>
      simp only [Stream.stepLexeme, Step.map, Stream.step, putOptionalSemicolon]
      split
      · split
        · exact h
        · exact h
      · exact h.put spelling (.verbatim ";")
  | space | lineBreak =>
      simp only [Stream.stepLexeme, Step.map, Stream.step]
      split
      · exact h
      · rename_i readable
        exact fun compact => absurd compact readable
  | indent | dedent => exact h

theorem endsIn_put {l : Lexeme} (written : l.writtenText spelling layout ≠ []) (gap : List Char) :
    (s.put layout (l.spell spelling)).EndsIn ⟨l, gap, l.writtenText spelling layout⟩ := by
  rw [put_of_written written]
  exact ⟨⟨_, rfl⟩, written, rfl⟩

/-- The pieces of one lexeme go on with the piece before, and the rest goes on with them. -/
theorem isChain_put {l : Lexeme} {before : Option Piece} {rest : List Piece}
    (quiet : s.Quiet layout) (ends : ∀ p ∈ before, s.EndsIn p)
    (later : ∀ front : Option Piece, (∀ p ∈ front, (s.put layout (l.spell spelling)).EndsIn p) →
      (front.toList ++ rest).IsChain (Piece.Follows spelling layout)) :
    (before.toList ++ (s.putPieces spelling layout l ++ rest)).IsChain
      (Piece.Follows spelling layout) := by
  by_cases blank : l.writtenText spelling layout = []
  · have none : s.putPieces spelling layout l = [] := by simp [putPieces, blank]
    rw [none]
    exact later before (by rwa [put_of_blank blank])
  · simp only [putPieces, List.isEmpty_iff, blank, if_false]
    generalize gapEq : (s.settleSemicolon (l.writtenText spelling layout)).gap
      (layout.forToken (l.spell spelling)) (l.writtenText spelling layout) = gap
    have next := later (some ⟨l, gap, l.writtenText spelling layout⟩) fun p member => by
      cases member
      exact endsIn_put blank gap
    -- the stream after settling is what the new piece follows
    have follows {p : Piece} (h : (s.settleSemicolon (l.writtenText spelling layout)).EndsIn p) :
        Piece.Follows spelling layout p ⟨l, gap, l.writtenText spelling layout⟩ :=
      .inr ⟨_, h, quiet.settle _, gapEq.symm⟩
    rcases settle_cases (s := s) (l.writtenText spelling layout) with ⟨new, settled⟩ | ⟨none, kept⟩
    · rw [new, List.append_assoc]
      have chain : (Piece.semicolon :: ⟨l, gap, l.writtenText spelling layout⟩ :: rest).IsChain
          (Piece.Follows spelling layout) := .cons_cons (follows settled) next
      cases before with
      | none => exact chain
      | some p => exact .cons_cons (.inl rfl) chain
    · rw [none, List.nil_append]
      cases before with
      | none => exact next
      | some p => exact .cons_cons (follows (kept p (ends p rfl))) next

/-- **Each gap is the one that the stream leaves after the piece before.** -/
theorem isChain_pieces (steps : List (Step Lexeme)) {before : Option Piece}
    (quiet : s.Quiet layout) (ends : ∀ p ∈ before, s.EndsIn p) :
    (before.toList ++ s.piecesFrom spelling layout steps).IsChain
      (Piece.Follows spelling layout) := by
  induction steps generalizing s before with
  | nil =>
      unfold piecesFrom
      split
      · cases before with
        | none => exact .singleton _
        | some p => exact .cons_cons (.inl rfl) (.singleton _)
      · cases before with
        | none => exact .nil
        | some p => exact .singleton _
  | cons step steps ih =>
      have nextQuiet : (s.stepLexeme spelling layout step).Quiet layout := quiet.stepLexeme step
      rw [piecesFrom]
      cases step with
      | put l => exact isChain_put quiet ends fun front h => ih nextQuiet h
      | optionalSemicolon =>
          by_cases compact : layout.compact = true
          · have next : s.stepLexeme spelling layout .optionalSemicolon =
                { (if s.pendingSemicolon then s.append [';'] else s) with
                  pendingSemicolon := true } := by
              simp [stepLexeme, Step.map, Stream.step, putOptionalSemicolon, compact]
            rw [next] at nextQuiet ⊢
            simp only [stepPieces, compact, if_true]
            by_cases pending : s.pendingSemicolon = true
            · simp only [pending, if_true] at nextQuiet ⊢
              have after := endsIn_semicolon s
              have chain : ((some Piece.semicolon).toList ++ _).IsChain _ :=
                ih nextQuiet fun p member => by
                  cases member
                  exact ⟨after.ends, after.nonempty, after.integer⟩
              cases before with
              | none => exact chain
              | some p => exact .cons_cons (.inl rfl) chain
            · simp only [pending, Bool.false_eq_true, if_false, List.nil_append] at nextQuiet ⊢
              exact ih nextQuiet fun p member =>
                ⟨(ends p member).ends, (ends p member).nonempty, (ends p member).integer⟩
          · rw [stepLexeme_optionalSemicolon (Bool.eq_false_iff.2 compact)] at nextQuiet ⊢
            simp only [stepPieces, compact, Bool.false_eq_true, if_false]
            exact isChain_put quiet ends fun front h => ih nextQuiet h
      | space | lineBreak =>
          refine ih nextQuiet fun p member => ?_
          simp only [stepLexeme, Step.map, Stream.step]
          split
          · exact ends p member
          · exact ⟨(ends p member).ends, (ends p member).nonempty, (ends p member).integer⟩
      | indent | dedent =>
          exact ih nextQuiet fun p member =>
            ⟨(ends p member).ends, (ends p member).nonempty, (ends p member).integer⟩

theorem isChain_start (steps : List (Step Lexeme)) :
    (start.piecesFrom spelling layout steps).IsChain (Piece.Follows spelling layout) := by
  have chain : ((none : Option Piece).toList ++ start.piecesFrom spelling layout steps).IsChain
      (Piece.Follows spelling layout) :=
    isChain_pieces steps (fun _ => ⟨rfl, rfl⟩) fun p member => by cases member
  exact chain

end Stream

/-! ## Touching pieces -/

/-- What holds of the last character of a text and the next one after it when no blank stands
in between. -/
structure Border (text : List Char) (last next : Char) : Prop where
  words : Text.isIdentifierPart last = true → Text.isIdentifierPart next = false
  plus : last = '+' → next ≠ '+'
  minus : last = '-' → next ≠ '-'
  slash : last = '/' → next ≠ '/' ∧ next ≠ '*' ∧ Text.isIdentifierPart next = false
  angle : last = '<' → next ≠ '!'
  point : next = '.' → text.all Char.isDigit = false

theorem Stream.needsSeparator_cons {s : Stream} {last : Char} {before : List Char}
    (written : s.written = last :: before) (next : Char) (rest : List Char) :
    s.needsSeparator (next :: rest) =
      ((Text.isIdentifierPart last && Text.isIdentifierPart next) ||
      (last = '+' && next = '+') || (last = '-' && next = '-') ||
      (last = '/' && (next = '/' || next = '*' || Text.isIdentifierPart next)) ||
      (next = '.' && s.lastInteger) ||
      (last = '<' && next = '!') ||
      (last = '-' && next = '>' && before.head? = some '-')) := by
  unfold needsSeparator
  rw [written]

/-- The last character of the piece is the one that the stream has written last. -/
theorem Stream.EndsIn.written_eq {s : Stream} {p : Piece} (h : s.EndsIn p) {last : Char}
    (ends : p.text.getLast? = some last) : ∃ before, s.written = last :: before := by
  obtain ⟨front, written⟩ := h.ends
  obtain ⟨inner, text⟩ := List.getLast?_eq_some_iff.1 ends
  refine ⟨inner.reverse ++ front, ?_⟩
  rw [written, text, List.reverse_append, List.reverse_singleton, List.singleton_append,
    List.cons_append]

theorem Stream.EndsIn.border {s : Stream} {p : Piece} (h : s.EndsIn p) {last next : Char}
    {rest : List Char} (ends : p.text.getLast? = some last)
    (apart : s.needsSeparator (next :: rest) = false) : Border p.text last next := by
  obtain ⟨before, written⟩ := h.written_eq ends
  rw [needsSeparator_cons written] at apart
  simp only [Bool.or_eq_false_iff, Bool.and_eq_false_imp, decide_eq_true_eq,
    decide_eq_false_iff_not] at apart
  obtain ⟨⟨⟨⟨⟨⟨words, plus⟩, minus⟩, slash⟩, point⟩, angle⟩, -⟩ := apart
  refine ⟨words, plus, minus, fun isSlash => ?_, angle, fun isPoint => ?_⟩
  · exact ⟨(slash isSlash).1.1, (slash isSlash).1.2, (slash isSlash).2⟩
  · rw [← h.integer]
    exact point isPoint

/-- Where there is no gap the stream has seen no need for one. -/
theorem Piece.Follows.border {spelling : Spelling} {layout : Layout} {p q : Piece}
    (h : p.Follows spelling layout q) (newLine : layout.newLine ≠ []) (touching : q.gap = [])
    {last next : Char} (ends : p.text.getLast? = some last) (first : q.text.head? = some next) :
    Border p.text last next := by
  rcases h with rfl | ⟨s, endsIn, -, gap⟩
  · cases first
    exact ⟨fun _ => rfl, fun _ => by decide, fun _ => by decide,
      fun _ => ⟨by decide, by decide, rfl⟩, fun _ => by decide, fun point => by cases point⟩
  · obtain ⟨rest, text⟩ := List.head?_eq_some_iff.1 first
    rw [touching, text] at gap
    have breaks : (layout.forToken (q.lexeme.spell spelling)).newLine ≠ [] := by
      cases q.lexeme.spell spelling <;> exact newLine
    have apart : s.needsSeparator (next :: rest) = false := by
      unfold Stream.gap at gap
      split at gap
      · exact absurd gap.symm (by simp [breaks])
      · split at gap
        · cases gap
        · rename_i none
          simp only [Bool.or_eq_true, not_or, Bool.not_eq_true] at none
          exact none.1.2
    exact endsIn.border ends apart

end EcmaScribe
