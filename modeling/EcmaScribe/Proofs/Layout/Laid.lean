/-
# EcmaScribe.Proofs.Layout.Laid -- a script as lexemes with spacing in between

A gap of a script is empty, a space, or a line break with the indentation of its depth.
`Stream.laidFrom` keeps the lexemes that a stream writes, each with its kind of gap and its depth,
and leaves out what the settings for readable output decide: how a line ends, and how wide an
indentation is.

* `Stream.pieces_eq_map_laid`: with these two, the laid lexemes are the pieces of the script.
* `Stream.laidFrom_eq`: without them, they are the same for all settings of one mode.  A stream
  judges by the last characters that it has written whether it has to keep tokens apart; what two
  runs have written may differ in the blanks before a line's first token, and of these it sees
  only that they are no dash.
* `Stream.spacing_ne_lineBreak`: compact output has no line breaks.
* `Stream.map_laidFrom`: readable output lays every lexeme that is not blank, at the depth of the
  indentations that are open.
-/
import EcmaScribe.Proofs.Layout.Context
import EcmaScribe.Proofs.Layout.Written
import EcmaScribe.Proofs.Lexical.Braces

namespace EcmaScribe

set_option autoImplicit false

/-! ## Laid lexemes -/

/-- What a stream leaves in front of a token. -/
inductive Spacing
  | touching
  | space
  | lineBreak
  deriving DecidableEq, Repr

/-- The blank text of a spacing; a new line is indented as its depth asks for. -/
def Spacing.text (layout : Layout) (depth : Nat) : Spacing → List Char
  | touching => []
  | space => [' ']
  | lineBreak => layout.newLine ++ List.replicate (depth * layout.indentWidth) ' '

/-- A written lexeme, what is left in front of it, and the depth of indentation where it stands. -/
structure Laid where
  spacing : Spacing
  depth : Nat
  lexeme : Lexeme
  deriving DecidableEq, Repr

/-- The piece that a layout makes of a laid lexeme. -/
def Laid.piece (spelling : Spelling) (layout : Layout) (w : Laid) : Piece :=
  ⟨w.lexeme, w.spacing.text layout w.depth, w.lexeme.writtenText spelling layout⟩

namespace Stream

variable (spelling : Spelling) (layout : Layout)

/-- The kind of gap in front of a token. -/
def spacing (s : Stream) (token : List Char) : Spacing :=
  if s.pendingBreak && !s.written.isEmpty then .lineBreak
  else if (s.pendingSpace && !s.written.isEmpty) || s.needsSeparator token ||
      (layout.safe && Text.formsOpenerAfter s.written token) then .space
  else .touching

/-- The semicolon that has been due. -/
def semicolonLaid (s : Stream) : Laid := ⟨.touching, s.level, .verbatim ";"⟩

def settleLaid (s : Stream) (token : List Char) : List Laid :=
  if s.pendingSemicolon then if token = ['\x7d'] then [] else [s.semicolonLaid] else []

def putLaid (s : Stream) (l : Lexeme) : List Laid :=
  let text := l.writtenText spelling layout
  if text.isEmpty then []
  else s.settleLaid text ++
    [⟨(s.settleSemicolon text).spacing (layout.forToken (l.spell spelling)) text, s.level, l⟩]

def stepLaid (s : Stream) : Step Lexeme → List Laid
  | .put l => s.putLaid spelling layout l
  | .optionalSemicolon =>
      if layout.compact then if s.pendingSemicolon then [s.semicolonLaid] else []
      else s.putLaid spelling layout (.verbatim ";")
  | .space | .lineBreak | .indent | .dedent => []

/-- The lexemes that a stream lays from a state on. -/
def laidFrom (s : Stream) : List (Step Lexeme) → List Laid
  | [] => if s.pendingSemicolon then [s.semicolonLaid] else []
  | step :: steps =>
      s.stepLaid spelling layout step ++ (s.stepLexeme spelling layout step).laidFrom steps

end Stream

namespace Stream

variable {spelling : Spelling} {layout : Layout} {s : Stream}

/-! ## Laid lexemes are the pieces of a script -/

theorem gap_eq_text (token : List Char) :
    s.gap layout token = (s.spacing layout token).text layout s.level := by
  unfold gap spacing
  split
  · rfl
  · split <;> rfl

@[simp] theorem piece_semicolonLaid : s.semicolonLaid.piece spelling layout = .semicolon := by
  have text : (Lexeme.verbatim ";").writtenText spelling layout = [';'] := writtenText_semicolon
  simp [Laid.piece, semicolonLaid, Piece.semicolon, Spacing.text, text]

theorem settlePieces_eq (token : List Char) :
    s.settlePieces token = (s.settleLaid token).map (Laid.piece spelling layout) := by
  unfold settlePieces settleLaid
  split
  · split <;> simp
  · rfl

theorem putPieces_eq (l : Lexeme) : s.putPieces spelling layout l =
    (s.putLaid spelling layout l).map (Laid.piece spelling layout) := by
  have indented (spacing : Spacing) :
      spacing.text (layout.forToken (l.spell spelling)) s.level = spacing.text layout s.level := by
    cases spacing <;> cases l.spell spelling <;> rfl
  unfold putPieces putLaid
  dsimp only
  split
  · rfl
  · rw [List.map_append, ← settlePieces_eq, gap_eq_text, level_settleSemicolon, indented]
    rfl

/-- **The laid lexemes are the pieces**, but for the settings that decide on line breaks. -/
theorem pieces_eq_map_laid (steps : List (Step Lexeme)) :
    s.piecesFrom spelling layout steps =
      (s.laidFrom spelling layout steps).map (Laid.piece spelling layout) := by
  induction steps generalizing s with
  | nil =>
      unfold piecesFrom laidFrom
      split <;> simp
  | cons step steps ih =>
      have own : s.stepPieces spelling layout step =
          (s.stepLaid spelling layout step).map (Laid.piece spelling layout) := by
        cases step with
        | put l => exact putPieces_eq l
        | optionalSemicolon =>
            unfold stepPieces stepLaid
            dsimp only
            split
            · split <;> simp
            · exact putPieces_eq _
        | space | lineBreak | indent | dedent => rfl
      rw [piecesFrom, laidFrom, List.map_append, own, ih]

/-! ## Compact output -/

theorem spacing_ne_lineBreak_of_quiet (quiet : s.Quiet layout) (compact : layout.compact = true)
    (asked : Layout) (token : List Char) : s.spacing asked token ≠ .lineBreak := by
  unfold spacing
  rw [(quiet compact).2]
  simp only [Bool.false_and, Bool.false_eq_true, if_false]
  split <;> simp

theorem spacing_ne_lineBreak_of_mem_putLaid (quiet : s.Quiet layout)
    (compact : layout.compact = true) {l : Lexeme} :
    ∀ w ∈ s.putLaid spelling layout l, w.spacing ≠ .lineBreak := by
  intro w member
  unfold putLaid at member
  dsimp only at member
  split at member
  · cases member
  · rcases List.mem_append.1 member with settled | own
    · unfold settleLaid at settled
      split at settled
      · split at settled
        · cases settled
        · rw [List.mem_singleton.1 settled]
          simp [semicolonLaid]
      · cases settled
    · rw [List.mem_singleton.1 own]
      exact spacing_ne_lineBreak_of_quiet (quiet.settle _) compact _ _

/-- **Compact output breaks no line.** -/
theorem spacing_ne_lineBreak (steps : List (Step Lexeme)) (quiet : s.Quiet layout)
    (compact : layout.compact = true) :
    ∀ w ∈ s.laidFrom spelling layout steps, w.spacing ≠ .lineBreak := by
  have semicolon {t : Stream} {condition : Prop} [Decidable condition] :
      ∀ w ∈ (if condition then [t.semicolonLaid] else []), w.spacing ≠ .lineBreak := by
    intro w member
    split at member
    · rw [List.mem_singleton.1 member]
      simp [semicolonLaid]
    · cases member
  induction steps generalizing s with
  | nil => exact semicolon
  | cons step steps ih =>
      rw [laidFrom, List.forall_mem_append]
      refine ⟨?_, ih (quiet.stepLexeme step)⟩
      cases step with
      | put l => exact spacing_ne_lineBreak_of_mem_putLaid quiet compact
      | optionalSemicolon =>
          rw [stepLaid, if_pos compact]
          exact semicolon
      | space | lineBreak | indent | dedent => exact List.forall_mem_nil _

end Stream

/-! ## Two runs -/

/-- Texts, newest character first, that keep the same tokens apart from themselves: they end in
the same character, and the one before it is a dash in both or in neither. -/
structure SameEnd (l m : List Char) : Prop where
  last : l.head? = m.head?
  dash : l.tail.head? = some '-' ↔ m.tail.head? = some '-'

theorem sameEnd_token {token : List Char} (nonempty : token ≠ []) {l m : List Char}
    (dash : l.head? = some '-' ↔ m.head? = some '-') :
    SameEnd (token.reverse ++ l) (token.reverse ++ m) := by
  obtain ⟨c, front, reversed⟩ := List.exists_cons_of_ne_nil (List.reverse_ne_nil_iff.2 nonempty)
  rw [reversed]
  cases front with
  | nil => exact ⟨rfl, dash⟩
  | cons d front => exact ⟨rfl, Iff.rfl⟩

/-- Of the blanks that start a line only this is seen. -/
theorem head?_lineBreak_ne_dash (options : PrintOptions) (depth : Nat) (l : List Char) :
    ((Spacing.lineBreak.text (.ofOptions options) depth).reverse ++ l).head? ≠ some '-' := by
  simp only [Spacing.text, List.reverse_append, List.reverse_replicate, List.append_assoc]
  cases depth * (Layout.ofOptions options).indentWidth with
  | zero =>
      show ((options.newLine.terminator.reverse ++ l).head? ≠ some '-')
      cases options.newLine <;> simp [NewLine.terminator]
  | succ n => simp [List.replicate_succ]

variable {o o' : PrintOptions}

/-- The same gap, in two settings, after texts that end in the same character. -/
theorem dash_gap (spacing : Spacing) (depth : Nat) {l m : List Char} (last : l.head? = m.head?) :
    ((spacing.text (.ofOptions o) depth).reverse ++ l).head? = some '-' ↔
      ((spacing.text (.ofOptions o') depth).reverse ++ m).head? = some '-' := by
  cases spacing with
  | touching => simp [Spacing.text, last]
  | space => simp [Spacing.text]
  | lineBreak =>
      exact iff_of_false (head?_lineBreak_ne_dash o depth l) (head?_lineBreak_ne_dash o' depth m)

theorem compact_ofOptions (mode : o.mode = o'.mode) :
    (Layout.ofOptions o).compact = (Layout.ofOptions o').compact := by
  simp only [Layout.ofOptions, mode]

/-- What is written for a lexeme depends on the mode alone. -/
theorem Lexeme.writtenText_ofOptions (mode : o.mode = o'.mode) (spelling : Spelling) (l : Lexeme) :
    l.writtenText spelling (.ofOptions o) = l.writtenText spelling (.ofOptions o') := by
  unfold Lexeme.writtenText
  cases l.spell spelling with
  | text chars => rfl
  | number value => exact congrArg value.literal (compact_ofOptions mode)

theorem Layout.forToken_ofOptions (token : Token) :
    (Layout.ofOptions o).forToken token = .ofOptions o := by
  cases token <;> rfl

namespace Stream

variable {spelling : Spelling} {s t : Stream}

/-- Two streams that differ at most in text that is not seen any more. -/
structure Alike (s t : Stream) : Prop where
  written : SameEnd s.written t.written
  level : s.level = t.level
  pendingSpace : s.pendingSpace = t.pendingSpace
  pendingBreak : s.pendingBreak = t.pendingBreak
  pendingSemicolon : s.pendingSemicolon = t.pendingSemicolon
  lastInteger : s.lastInteger = t.lastInteger

namespace Alike

theorem refl (s : Stream) : s.Alike s := ⟨⟨rfl, Iff.rfl⟩, rfl, rfl, rfl, rfl, rfl⟩

theorem isEmpty (alike : s.Alike t) : s.written.isEmpty = t.written.isEmpty := by
  have last := alike.written.last
  cases hs : s.written <;> cases ht : t.written <;> simp_all

theorem needsSeparator (alike : s.Alike t) (token : List Char) :
    s.needsSeparator token = t.needsSeparator token := by
  obtain ⟨last, dash⟩ := alike.written
  unfold Stream.needsSeparator
  rw [alike.lastInteger]
  cases hs : s.written with
  | nil =>
      rw [hs] at last
      rw [List.head?_eq_none_iff.1 last.symm]
  | cons c before =>
      rw [hs] at last dash
      obtain ⟨before', ht⟩ := List.head?_eq_some_iff.1 last.symm
      rw [ht] at dash ⊢
      have second : decide (before.head? = some '-') = decide (before'.head? = some '-') :=
        decide_eq_decide.2 dash
      cases token with
      | nil => rfl
      | cons next rest => simp only [second]

/-- Both leave the same kind of gap. -/
theorem spacing (alike : s.Alike t) (o o' : PrintOptions) (token : List Char) :
    s.spacing (.ofOptions o) token = t.spacing (.ofOptions o') token := by
  have plain (options : PrintOptions) : (Layout.ofOptions options).safe = false := rfl
  unfold Stream.spacing
  rw [alike.pendingBreak, alike.pendingSpace, alike.isEmpty, alike.needsSeparator, plain, plain]
  simp only [Bool.false_and]

theorem semicolon (alike : s.Alike t) : (s.append [';']).Alike (t.append [';']) where
  written := sameEnd_token (by simp) (by rw [alike.written.last])
  level := alike.level
  pendingSpace := alike.pendingSpace
  pendingBreak := alike.pendingBreak
  pendingSemicolon := alike.pendingSemicolon
  lastInteger := rfl

theorem settle (alike : s.Alike t) (token : List Char) :
    (s.settleSemicolon token).Alike (t.settleSemicolon token) := by
  unfold settleSemicolon
  rw [alike.pendingSemicolon]
  split
  · dsimp only
    split
    · exact { alike with pendingSemicolon := rfl }
    · exact { alike.semicolon with pendingSemicolon := rfl }
  · exact alike

theorem put (alike : s.Alike t) (mode : o.mode = o'.mode) (spelling : Spelling) (l : Lexeme) :
    (s.put (.ofOptions o) (l.spell spelling)).Alike (t.put (.ofOptions o') (l.spell spelling)) := by
  have text := l.writtenText_ofOptions mode spelling
  by_cases blank : l.writtenText spelling (.ofOptions o) = []
  · rwa [put_of_blank blank, put_of_blank (text ▸ blank)]
  · rw [put_of_written blank, put_of_written (text ▸ blank), ← text]
    have settled := alike.settle (l.writtenText spelling (.ofOptions o))
    simp only [gap_eq_text, Layout.forToken_ofOptions, settled.level,
      settled.spacing o o']
    exact {
      written := sameEnd_token blank (dash_gap _ _ settled.written.last)
      level := rfl
      pendingSpace := rfl
      pendingBreak := rfl
      pendingSemicolon := settled.pendingSemicolon
      lastInteger := rfl }

theorem step (alike : s.Alike t) (mode : o.mode = o'.mode) (step : Step Lexeme) :
    (s.stepLexeme spelling (.ofOptions o) step).Alike
      (t.stepLexeme spelling (.ofOptions o') step) := by
  have compact := compact_ofOptions mode
  cases step with
  | put l => exact alike.put mode spelling l
  | optionalSemicolon =>
      simp only [Stream.stepLexeme, Step.map, Stream.step, putOptionalSemicolon, compact]
      split
      · rw [alike.pendingSemicolon]
        split
        · exact { alike.semicolon with pendingSemicolon := rfl }
        · exact { alike with pendingSemicolon := rfl }
      · exact alike.put mode spelling (.verbatim ";")
  | space =>
      simp only [Stream.stepLexeme, Step.map, Stream.step, compact]
      split
      · exact alike
      · exact { alike with pendingSpace := rfl }
  | lineBreak =>
      simp only [Stream.stepLexeme, Step.map, Stream.step, compact]
      split
      · exact alike
      · exact { alike with pendingBreak := rfl }
  | indent => exact { alike with level := congrArg (· + 1) alike.level }
  | dedent => exact { alike with level := congrArg (· - 1) alike.level }

theorem semicolonLaid (alike : s.Alike t) : s.semicolonLaid = t.semicolonLaid := by
  rw [Stream.semicolonLaid, alike.level]
  rfl

theorem putLaid (alike : s.Alike t) (mode : o.mode = o'.mode) (l : Lexeme) :
    s.putLaid spelling (.ofOptions o) l = t.putLaid spelling (.ofOptions o') l := by
  have text := l.writtenText_ofOptions mode spelling
  unfold Stream.putLaid settleLaid
  simp only [Layout.forToken_ofOptions, alike.level, alike.pendingSemicolon, alike.semicolonLaid,
    text, (alike.settle _).spacing o o']

theorem stepLaid (alike : s.Alike t) (mode : o.mode = o'.mode) (step : Step Lexeme) :
    s.stepLaid spelling (.ofOptions o) step = t.stepLaid spelling (.ofOptions o') step := by
  cases step with
  | put l => exact alike.putLaid mode l
  | optionalSemicolon =>
      simp only [Stream.stepLaid, compact_ofOptions mode, alike.pendingSemicolon,
        alike.semicolonLaid, alike.putLaid mode]
  | space | lineBreak | indent | dedent => rfl

end Alike

/-- **Width and terminator leave the laid lexemes alone.** -/
theorem laidFrom_eq (alike : s.Alike t) (mode : o.mode = o'.mode) (steps : List (Step Lexeme)) :
    s.laidFrom spelling (.ofOptions o) steps = t.laidFrom spelling (.ofOptions o') steps := by
  induction steps generalizing s t with
  | nil => simp only [laidFrom, alike.pendingSemicolon, alike.semicolonLaid]
  | cons step steps ih => rw [laidFrom, laidFrom, alike.stepLaid mode, ih (alike.step mode step)]

end Stream

/-! ## Readable output -/

/-- The lexemes of instructions, each with the number of indentations that are open. -/
def lexemesFrom : Nat → List (Step Lexeme) → List (Nat × Lexeme)
  | _, [] => []
  | depth, step :: steps =>
      step.lexeme?.toList.map (depth, ·) ++
        lexemesFrom ((step.map (Lexeme.spell .plain)).depth depth) steps

namespace Stream

variable {spelling : Spelling} {layout : Layout} {s : Stream}

/-- In readable output no semicolon is due at any time. -/
def Settled (s : Stream) : Prop := s.pendingSemicolon = false

theorem settled_start : start.Settled := rfl

theorem putLaid_of_blank {l : Lexeme} (blank : l.isBlank = true) :
    s.putLaid spelling layout l = [] := by
  simp [putLaid, Lexeme.writtenText_of_isBlank blank]

theorem putLaid_of_settled (settled : s.Settled) {l : Lexeme} (written : l.isBlank = false) :
    s.putLaid spelling layout l =
      [⟨s.spacing (layout.forToken (l.spell spelling)) (l.writtenText spelling layout), s.level,
        l⟩] := by
  have noSemicolon : s.pendingSemicolon = false := settled
  simp [putLaid, settleLaid, settleSemicolon, noSemicolon, l.writtenText_ne_nil written]

theorem settled_put (settled : s.Settled) (l : Lexeme) :
    (s.put layout (l.spell spelling)).Settled := by
  by_cases blank : l.writtenText spelling layout = []
  · rwa [put_of_blank blank]
  · exact pendingSemicolon_put blank

theorem map_putLaid (settled : s.Settled) (l : Lexeme) :
    (s.putLaid spelling layout l).map (fun w => (w.depth, w.lexeme)) =
      [(s.level, l)].filter (!·.2.isBlank) := by
  cases written : l.isBlank with
  | true => simp [putLaid_of_blank written, written]
  | false => simp [putLaid_of_settled settled written, written]

section Readable

variable (readable : layout.compact = false)

include readable

theorem stepLaid_optionalSemicolon : s.stepLaid spelling layout .optionalSemicolon =
    s.putLaid spelling layout (.verbatim ";") := by
  simp [stepLaid, readable]

theorem settled_step (settled : s.Settled) (step : Step Lexeme) :
    (s.stepLexeme spelling layout step).Settled := by
  cases step with
  | put l => exact settled_put settled l
  | optionalSemicolon =>
      rw [stepLexeme_optionalSemicolon readable]
      exact settled_put settled _
  | space | lineBreak =>
      simp only [stepLexeme, Step.map, Stream.step, readable]
      exact settled
  | indent | dedent => exact settled

theorem settled_after (settled : s.Settled) (steps : List (Step Lexeme)) :
    (s.after spelling layout steps).Settled := by
  induction steps generalizing s with
  | nil => exact settled
  | cons step steps ih => exact ih (settled_step readable settled step)

/-- What is laid does not depend on what comes later. -/
theorem laidFrom_append (settled : s.Settled) (l m : List (Step Lexeme)) :
    s.laidFrom spelling layout (l ++ m) =
      s.laidFrom spelling layout l ++ (s.after spelling layout l).laidFrom spelling layout m := by
  induction l generalizing s with
  | nil =>
      have noSemicolon : s.pendingSemicolon = false := settled
      simp [laidFrom, noSemicolon]
  | cons step steps ih =>
      rw [List.cons_append, laidFrom, laidFrom, ih (settled_step readable settled step), after_cons,
        List.append_assoc]

/-- **Readable output lays every lexeme that is not blank**, at the depth of the indentations that
are open. -/
theorem map_laidFrom (settled : s.Settled) (steps : List (Step Lexeme)) :
    (s.laidFrom spelling layout steps).map (fun w => (w.depth, w.lexeme)) =
      (lexemesFrom s.level steps).filter (!·.2.isBlank) := by
  induction steps generalizing s with
  | nil =>
      have noSemicolon : s.pendingSemicolon = false := settled
      simp [laidFrom, lexemesFrom, noSemicolon]
  | cons step steps ih =>
      have own : (s.stepLaid spelling layout step).map (fun w => (w.depth, w.lexeme)) =
          (step.lexeme?.toList.map (s.level, ·)).filter (!·.2.isBlank) := by
        cases step with
        | put l => exact map_putLaid settled l
        | optionalSemicolon =>
            rw [stepLaid_optionalSemicolon readable]
            exact map_putLaid settled _
        | space | lineBreak | indent | dedent => rfl
      have depth : (s.stepLexeme spelling layout step).level =
          (step.map (Lexeme.spell .plain)).depth s.level := by
        rw [level_stepLexeme]
        cases step <;> rfl
      rw [laidFrom, List.map_append, own, ih (settled_step readable settled step), depth,
        lexemesFrom, List.filter_append]

end Readable

end Stream

end EcmaScribe
