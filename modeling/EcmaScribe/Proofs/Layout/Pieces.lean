/-
# EcmaScribe.Proofs.Layout.Pieces -- a script as texts with gaps in between

A stream decides gaps and semicolons while it writes.  `Stream.piecesFrom` keeps apart what it
writes: each lexeme with its text and the blank text in front of it.  Two facts make the
pieces the script's own.

* `Stream.finish_runFrom`: gaps and texts, one after another, are the script.
* `Stream.kept_pieces`: the lexemes of the pieces are the lexemes of the instructions without
  the blank ones, and without the semicolons that a brace makes superfluous.
-/
import EcmaScribe.Proofs.Fragment.Lexemes
import Mathlib.Data.List.Chain

namespace EcmaScribe

set_option autoImplicit false

/-! ## Pieces -/

/-- What a stream writes for a token. -/
def Token.writtenText (layout : Layout) : Token → List Char
  | text chars => if layout.safe then Text.sanitize chars else chars
  | number value => value.literal layout.compact

/-- Numbers are written as they are, in safe output too. -/
def Layout.forToken (layout : Layout) : Token → Layout
  | .text _ => layout
  | .number _ => { layout with safe := false }

/-- What a stream writes for a lexeme. -/
def Lexeme.writtenText (spelling : Spelling) (layout : Layout) (l : Lexeme) : List Char :=
  (l.spell spelling).writtenText layout

/-- A written lexeme: its text and the blank text in front of it. -/
structure Piece where
  lexeme : Lexeme
  gap : List Char
  text : List Char
  deriving DecidableEq

namespace Piece

/-- The semicolon that has been due. -/
def semicolon : Piece := ⟨.verbatim ";", [], [';']⟩

/-- The text of pieces in a row. -/
def joined (pieces : List Piece) : List Char := pieces.flatMap fun p => p.gap ++ p.text

@[simp] theorem joined_nil : joined [] = [] := rfl

@[simp] theorem joined_cons (p : Piece) (pieces : List Piece) :
    joined (p :: pieces) = p.gap ++ p.text ++ joined pieces := rfl

@[simp] theorem joined_append (l m : List Piece) : joined (l ++ m) = joined l ++ joined m :=
  List.flatMap_append

end Piece

namespace Stream

variable (spelling : Spelling) (layout : Layout)

/-- The due semicolon, unless the token is a closing brace. -/
def settlePieces (s : Stream) (token : List Char) : List Piece :=
  if s.pendingSemicolon then if token = ['\x7d'] then [] else [.semicolon] else []

def putPieces (s : Stream) (l : Lexeme) : List Piece :=
  let text := l.writtenText spelling layout
  if text.isEmpty then []
  else s.settlePieces text ++
    [⟨l, (s.settleSemicolon text).gap (layout.forToken (l.spell spelling)) text, text⟩]

def stepPieces (s : Stream) : Step Lexeme → List Piece
  | .put l => s.putPieces spelling layout l
  | .optionalSemicolon =>
      if layout.compact then if s.pendingSemicolon then [.semicolon] else []
      else s.putPieces spelling layout (.verbatim ";")
  | .space | .lineBreak | .indent | .dedent => []

/-- One instruction over lexemes. -/
def stepLexeme (s : Stream) (step : Step Lexeme) : Stream :=
  s.step layout (step.map (Lexeme.spell spelling))

/-- The pieces that a stream writes from a state on. -/
def piecesFrom (s : Stream) : List (Step Lexeme) → List Piece
  | [] => if s.pendingSemicolon then [.semicolon] else []
  | step :: steps =>
      s.stepPieces spelling layout step ++ (s.stepLexeme spelling layout step).piecesFrom steps

end Stream

/-! ## The pieces make up the text -/

namespace Stream

variable {spelling : Spelling} {layout : Layout} {s : Stream}

theorem put_eq_writeToken (token : Token) :
    s.put layout token = s.writeToken (layout.forToken token) (token.writtenText layout) := by
  cases token <;> rfl

theorem text_settleSemicolon (token : List Char) :
    (s.settleSemicolon token).text = s.text ++ Piece.joined (s.settlePieces token) := by
  unfold settleSemicolon settlePieces
  split
  · dsimp only
    split
    · simp [text]
    · simp [text, append, Piece.semicolon]
  · simp

theorem put_of_blank {l : Lexeme} (blank : l.writtenText spelling layout = []) :
    s.put layout (l.spell spelling) = s := by
  rw [put_eq_writeToken]
  unfold Lexeme.writtenText at blank
  simp [writeToken, blank]

/-- A stream after a token that is not blank. -/
theorem put_of_written {l : Lexeme} (written : l.writtenText spelling layout ≠ []) :
    s.put layout (l.spell spelling) =
      { s.settleSemicolon (l.writtenText spelling layout) with
        written := ((s.settleSemicolon (l.writtenText spelling layout)).gap
          (layout.forToken (l.spell spelling)) (l.writtenText spelling layout)).reverse ++
            (s.settleSemicolon (l.writtenText spelling layout)).written
        pendingBreak := false
        pendingSpace := false : Stream }.append (l.writtenText spelling layout) := by
  rw [put_eq_writeToken]
  unfold Lexeme.writtenText at written ⊢
  simp [writeToken, written]

theorem text_put (l : Lexeme) : (s.put layout (l.spell spelling)).text =
    s.text ++ Piece.joined (s.putPieces spelling layout l) := by
  by_cases blank : l.writtenText spelling layout = []
  · rw [put_of_blank blank]
    simp [putPieces, blank]
  · have settled := text_settleSemicolon (s := s) (l.writtenText spelling layout)
    simp only [text] at settled
    rw [put_of_written blank]
    simp [putPieces, blank, text, append, settled]

theorem text_step (step : Step Lexeme) : (s.stepLexeme spelling layout step).text =
    s.text ++ Piece.joined (s.stepPieces spelling layout step) := by
  cases step with
  | put l => exact text_put l
  | optionalSemicolon =>
      unfold stepPieces
      simp only [stepLexeme, Step.map, Stream.step, putOptionalSemicolon]
      split
      · split
        · simp [text, append, Piece.semicolon]
        · simp [text]
      · exact text_put (.verbatim ";")
  | space =>
      simp only [stepLexeme, Step.map, Stream.step]
      split <;> simp [stepPieces, text]
  | lineBreak =>
      simp only [stepLexeme, Step.map, Stream.step]
      split <;> simp [stepPieces, text]
  | indent => simp [stepLexeme, Step.map, Stream.step, stepPieces, text]
  | dedent => simp [stepLexeme, Step.map, Stream.step, stepPieces, text]

/-- What ends the last line of a readable text. -/
def ending (layout : Layout) (text : List Char) : List Char :=
  if !layout.compact && !text.isEmpty then layout.newLine else []

theorem finish_eq : s.finish layout =
    s.text ++ Piece.joined (s.piecesFrom spelling layout []) ++
      ending layout (s.text ++ Piece.joined (s.piecesFrom spelling layout [])) := by
  have done (t : Stream) : (if !layout.compact && !t.written.isEmpty then t.text ++ layout.newLine
      else t.text) = t.text ++ ending layout t.text := by
    unfold ending
    have same : t.text.isEmpty = t.written.isEmpty := by simp [text]
    rw [same]
    split
    · rfl
    · simp
  unfold finish piecesFrom
  dsimp only
  split
  · rw [done]
    simp [text, append, Piece.semicolon]
  · rw [done]
    simp

/-- **The gaps and texts of the pieces make up the script.** -/
theorem finish_runFrom (steps : List (Step Lexeme)) :
    (s.runFrom layout (steps.map (Step.map (Lexeme.spell spelling)))).finish layout =
      s.text ++ Piece.joined (s.piecesFrom spelling layout steps) ++
        ending layout (s.text ++ Piece.joined (s.piecesFrom spelling layout steps)) := by
  induction steps generalizing s with
  | nil => exact finish_eq
  | cons step steps ih =>
      have next := ih (s := s.stepLexeme spelling layout step)
      rw [text_step] at next
      rw [piecesFrom, Piece.joined_append, ← List.append_assoc]
      exact next

end Stream

/-! ## The lexemes of the pieces -/

/-- The second sequence is the first without blank lexemes and without semicolons before a
closing brace. -/
inductive Kept (textOf : Lexeme → List Char) : List Lexeme → List Lexeme → Prop
  | nil : Kept textOf [] []
  | blank {l : Lexeme} {all kept : List Lexeme} (blank : textOf l = [])
      (h : Kept textOf all kept) : Kept textOf (l :: all) kept
  | keep {l : Lexeme} {all kept : List Lexeme} (written : textOf l ≠ [])
      (h : Kept textOf all kept) : Kept textOf (l :: all) (l :: kept)
  | drop {l : Lexeme} {all kept : List Lexeme} (brace : textOf l = ['\x7d'])
      (h : Kept textOf all (l :: kept)) : Kept textOf (.verbatim ";" :: all) (l :: kept)

namespace Kept

variable {textOf : Lexeme → List Char} {all kept : List Lexeme}

theorem sublist (h : Kept textOf all kept) : kept.Sublist all := by
  induction h with
  | nil => exact .slnil
  | blank _ _ ih => exact ih.cons _
  | keep _ _ ih => exact ih.cons_cons _
  | drop _ _ ih => exact ih.cons _

/-- A blank lexeme changes nothing after a semicolon either. -/
theorem insert_blank {l : Lexeme} (blank : textOf l = []) (semicolon : textOf (.verbatim ";") ≠ [])
    (h : Kept textOf (.verbatim ";" :: all) kept) :
    Kept textOf (.verbatim ";" :: l :: all) kept := by
  cases h with
  | blank none _ => exact absurd none semicolon
  | keep written h => exact .keep written (.blank blank h)
  | drop brace h => exact .drop brace (.blank blank h)

/-- What holds of neighbours in the first sequence holds of neighbours in the second, if a
closing brace may take the place of a semicolon. -/
theorem isChain {R : Lexeme → Lexeme → Prop}
    (drop : ∀ x y, R x (.verbatim ";") → textOf y = ['\x7d'] → R x y)
    (semicolon : textOf (.verbatim ";") ≠ []) (h : Kept textOf all kept)
    (chain : (all.filter fun l => textOf l ≠ []).IsChain R) : kept.IsChain R := by
  have general : ∀ front : Option Lexeme,
      (front.toList ++ all.filter fun l => textOf l ≠ []).IsChain R →
        (front.toList ++ kept).IsChain R := by
    clear chain
    induction h with
    | nil => exact fun _ chain => chain
    | blank blank _ ih =>
        intro front chain
        exact ih front (by simpa [blank] using chain)
    | @keep l all kept written _ ih =>
        intro front chain
        rw [List.filter_cons_of_pos (by simpa using written), List.isChain_split] at chain
        exact List.isChain_split.2 ⟨chain.1, ih (some l) chain.2⟩
    | @drop l all kept brace _ ih =>
        intro front chain
        rw [List.filter_cons_of_pos (by simpa using semicolon)] at chain
        cases front with
        | none => exact ih none chain.tail
        | some x =>
            have tail : (l :: kept).IsChain R := ih none (chain.tail.tail)
            refine List.IsChain.cons_cons (drop x l ?_ brace) tail
            exact List.rel_of_isChain_cons_cons chain
  exact general none chain

end Kept

namespace Stream

variable {spelling : Spelling} {layout : Layout} {s : Stream}

theorem writtenText_semicolon :
    (Lexeme.verbatim ";").writtenText spelling layout = [';'] := by
  show (if layout.safe then Text.sanitize [';'] else [';']) = [';']
  split
  · decide
  · rfl

/-- In readable output, a semicolon that may be left out is put like any other. -/
theorem stepLexeme_optionalSemicolon (readable : layout.compact = false) :
    s.stepLexeme spelling layout .optionalSemicolon =
      s.put layout ((Lexeme.verbatim ";").spell spelling) := by
  simp only [stepLexeme, Step.map, Stream.step, putOptionalSemicolon, readable,
    Bool.false_eq_true, if_false]
  rfl

/-- The semicolon that is due, as a lexeme. -/
def due (s : Stream) : List Lexeme := if s.pendingSemicolon then [.verbatim ";"] else []

theorem due_of_blank {step : Step Lexeme} (blank : step.lexeme? = none) :
    (s.stepLexeme spelling layout step).due = s.due := by
  cases step with
  | put | optionalSemicolon => cases blank
  | space | lineBreak =>
      simp only [stepLexeme, Step.map, Stream.step]
      split <;> rfl
  | indent | dedent => rfl

theorem pendingSemicolon_put {l : Lexeme} (written : l.writtenText spelling layout ≠ []) :
    (s.put layout (l.spell spelling)).pendingSemicolon = false := by
  rw [put_of_written written]
  show (s.settleSemicolon (l.writtenText spelling layout)).pendingSemicolon = false
  unfold settleSemicolon
  split
  · dsimp only
    split <;> rfl
  · rename_i none
    simpa using none

theorem kept_put {l : Lexeme} {all kept : List Lexeme}
    (h : Kept (Lexeme.writtenText spelling layout)
      ((s.put layout (l.spell spelling)).due ++ all) kept) :
    Kept (Lexeme.writtenText spelling layout) (s.due ++ l :: all)
      ((s.putPieces spelling layout l).map (·.lexeme) ++ kept) := by
  by_cases blank : l.writtenText spelling layout = []
  · rw [put_of_blank blank] at h
    simp only [putPieces, blank, List.isEmpty_nil, if_true, List.map_nil, List.nil_append]
    unfold due at h ⊢
    split
    · rename_i pending
      rw [if_pos pending] at h
      exact h.insert_blank blank (by rw [writtenText_semicolon]; simp)
    · rename_i pending
      rw [if_neg pending] at h
      exact .blank blank h
  · have settled : (s.put layout (l.spell spelling)).due = [] := by
      simp [due, pendingSemicolon_put blank]
    rw [settled, List.nil_append] at h
    have put : Kept (Lexeme.writtenText spelling layout) (l :: all) (l :: kept) := .keep blank h
    simp only [putPieces, List.isEmpty_iff, blank, if_false, List.map_append, List.map_cons,
      List.map_nil, List.append_assoc, List.cons_append, List.nil_append]
    unfold due settlePieces
    split
    · split
      · rename_i brace
        exact .drop brace put
      · exact .keep (by rw [writtenText_semicolon]; simp) put
    · exact put

/-- **The lexemes of the pieces are those of the instructions**, blank ones and superfluous
semicolons left out. -/
theorem kept_pieces (steps : List (Step Lexeme)) :
    Kept (Lexeme.writtenText spelling layout) (s.due ++ steps.filterMap Step.lexeme?)
      ((s.piecesFrom spelling layout steps).map (·.lexeme)) := by
  have semicolon : (Lexeme.verbatim ";").writtenText spelling layout ≠ [] := by
    rw [writtenText_semicolon]
    simp
  induction steps generalizing s with
  | nil =>
      unfold piecesFrom due
      split
      · exact .keep semicolon .nil
      · exact .nil
  | cons step steps ih =>
      have next := ih (s := s.stepLexeme spelling layout step)
      rw [piecesFrom, List.map_append]
      cases step with
      | put l => exact kept_put next
      | optionalSemicolon =>
          rw [show (Step.optionalSemicolon :: steps).filterMap Step.lexeme? =
            .verbatim ";" :: steps.filterMap Step.lexeme? from rfl]
          by_cases compact : layout.compact = true
          · have due : (s.stepLexeme spelling layout .optionalSemicolon).due = [.verbatim ";"] := by
              simp [stepLexeme, Step.map, Stream.step, putOptionalSemicolon, compact, Stream.due]
            rw [due] at next
            simp only [stepPieces, compact, if_true]
            unfold Stream.due
            split
            · exact .keep semicolon next
            · exact next
          · rw [stepLexeme_optionalSemicolon (Bool.eq_false_iff.2 compact)] at next ⊢
            simp only [stepPieces, compact, Bool.false_eq_true, if_false]
            exact kept_put next
      | space | lineBreak | indent | dedent =>
          rw [due_of_blank rfl] at next
          exact next

theorem text_semicolon : Piece.semicolon.text =
    Piece.semicolon.lexeme.writtenText spelling layout ∧ Piece.semicolon.text ≠ [] :=
  ⟨writtenText_semicolon.symm, by simp [Piece.semicolon]⟩

theorem text_of_mem_putPieces {l : Lexeme} {p : Piece} (member : p ∈ s.putPieces spelling layout l) :
    p.text = p.lexeme.writtenText spelling layout ∧ p.text ≠ [] := by
  unfold putPieces at member
  dsimp only at member
  split at member
  · cases member
  · rename_i written
    rcases List.mem_append.1 member with settled | new
    · unfold settlePieces at settled
      split at settled
      · split at settled
        · cases settled
        · rw [List.mem_singleton.1 settled]
          exact text_semicolon
      · cases settled
    · rw [List.mem_singleton.1 new]
      exact ⟨rfl, by simpa using written⟩

/-- The text of a piece is what the stream writes for its lexeme, and it is not empty. -/
theorem text_of_mem_pieces (steps : List (Step Lexeme)) :
    ∀ p ∈ s.piecesFrom spelling layout steps,
      p.text = p.lexeme.writtenText spelling layout ∧ p.text ≠ [] := by
  induction steps generalizing s with
  | nil =>
      intro p member
      unfold piecesFrom at member
      split at member
      · rw [List.mem_singleton.1 member]
        exact text_semicolon
      · cases member
  | cons step steps ih =>
      intro p member
      rw [piecesFrom] at member
      rcases List.mem_append.1 member with now | later
      · cases step with
        | put l => exact text_of_mem_putPieces now
        | optionalSemicolon =>
            unfold stepPieces at now
            dsimp only at now
            split at now
            · split at now
              · rw [List.mem_singleton.1 now]
                exact text_semicolon
              · cases now
            · exact text_of_mem_putPieces now
        | space | lineBreak | indent | dedent => cases now
      · exact ih p later

end Stream

end EcmaScribe
