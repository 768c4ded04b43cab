/-
# EcmaScribe.Proofs.Fragment.Tight -- how the instructions of a fragment start and end

The instructions of code start with a token and end with one (`Code.tight`), so no space, break or
semicolon of theirs is due before or after.  The instructions of any fragment take back what they
indent (`levelKept_steps`).
-/
import EcmaScribe.Proofs.Fragment.Code
import EcmaScribe.Proofs.Layout.Context
import EcmaScribe.Proofs.Lexical.Braces

namespace EcmaScribe

set_option autoImplicit false

/-! ## Instructions that start and end with a token -/

/-- The first instruction and the last put a lexeme that is not blank. -/
structure Tight (steps : List (Step Lexeme)) : Prop where
  first : ∃ l rest, steps = .put l :: rest ∧ l.isBlank = false
  last : ∃ front l, steps = front ++ [.put l] ∧ l.isBlank = false

namespace Tight

variable {l m : List (Step Lexeme)}

theorem single {x : Lexeme} (written : x.isBlank = false) : Tight [.put x] :=
  ⟨⟨x, [], rfl, written⟩, ⟨[], x, rfl, written⟩⟩

/-- What stands in between plays no part. -/
theorem around (left : Tight l) (between : List (Step Lexeme)) (right : Tight m) :
    Tight (l ++ between ++ m) := by
  obtain ⟨x, rest, rfl, first⟩ := left.first
  obtain ⟨front, y, rfl, last⟩ := right.last
  exact ⟨⟨x, rest ++ between ++ (front ++ [.put y]), by simp, first⟩,
    ⟨(.put x :: rest) ++ between ++ front, y, by simp, last⟩⟩

theorem append (left : Tight l) (right : Tight m) : Tight (l ++ m) := by
  simpa using left.around [] right

/-- Instructions between two words. -/
theorem enclosed (opening closing : String) (left : opening ≠ "") (right : closing ≠ "")
    (inner : List (Step Lexeme)) :
    Tight (.put (.verbatim opening) :: inner ++ [.put (.verbatim closing)]) :=
  (single (x := .verbatim opening) (by simpa [Lexeme.isBlank] using left)).around inner
    (single (x := .verbatim closing) (by simpa [Lexeme.isBlank] using right))

end Tight

namespace Tight

variable {steps : List (Step Lexeme)} {spelling : Spelling} {layout : Layout} {s : Stream}

/-- Nothing is due after the last token. -/
theorem idle (tight : Tight steps) : (s.after spelling layout steps).Idle := by
  obtain ⟨front, l, rfl, written⟩ := tight.last
  rw [Stream.after_append]
  exact Stream.idle_put (l.writtenText_ne_nil written)

/-- **Behind a fence** tight instructions write what they write with nothing in front. -/
theorem text_after (tight : Tight steps) (idle : s.Idle) (fenced : s.Fenced) :
    (s.after spelling layout steps).text =
      s.text ++ ((Stream.fresh s.level).after spelling layout steps).text := by
  obtain ⟨l, rest, rfl, written⟩ := tight.first
  obtain ⟨c, before, ends, fence⟩ := fenced.ends
  have nonblank : l.writtenText spelling layout ≠ [] := l.writtenText_ne_nil written
  have whole := Stream.runFrom_behind_of_put fence (Stream.unasked_fresh s.level) before nonblank
    (rest.map (Step.map (Lexeme.spell spelling)))
  rw [← ends, ← idle.eq_behind fenced.integer] at whole
  exact (congrArg Stream.text whole).trans (Stream.text_behind _)

end Tight

namespace Fragment

theorem stepsAll_append (b : Bool) (fs gs : List Fragment) :
    stepsAll b (fs ++ gs) = stepsAll b fs ++ stepsAll b gs := by
  induction fs with
  | nil => simp [stepsAll]
  | cons f fs ih => simp [stepsAll, ih]

theorem stepsAll_single (b : Bool) (f : Fragment) : stepsAll b [f] = f.steps b := by
  simp [stepsAll]

/-- **Code starts and ends with a token**, if no leaf is blank. -/
theorem Code.tight {fs : List Fragment}
    (h : Code (fun leaf => ∀ l, leaf.lexeme? = some l → l.isBlank = false) fs) (b : Bool) :
    Tight (stepsAll b fs) := by
  have single (b : Bool) {l : Lexeme} (written : l.isBlank = false) :
      Tight (stepsAll b [lexeme l]) := by
    simpa [stepsAll, steps] using .single written
  induction h generalizing b with
  | leaf admitted written => exact single b (admitted _ written)
  | infinity => exact single b rfl
  | word text free =>
      have named : text ≠ "" := fun none => free (none ▸ List.mem_cons_self)
      exact single b (by simpa [Lexeme.isBlank] using named)
  | cons _ _ first rest =>
      have whole := (first b).append (rest b)
      rwa [stepsAll_single] at whole
  | apart _ _ first rest =>
      have whole := (first b).around [.space] (rest b)
      simpa [stepsAll, steps] using whole
  | seq _ ih => simpa [stepsAll, steps] using ih b
  | @paren f _ => simpa [stepsAll, steps] using
      Tight.enclosed "(" ")" (by decide) (by decide) (f.steps false)
  | @bracket f _ => simpa [stepsAll, steps] using
      Tight.enclosed "[" "]" (by decide) (by decide) (f.steps false)
  | @brace f _ => simpa [stepsAll, steps] using
      Tight.enclosed "\x7b" "\x7d" (by decide) (by decide) (f.steps false)
  | @isIn l r _ _ left right =>
      have whole := (left false).around [.space, .put (.verbatim "in"), .space] (right false)
      cases b with
      | true => simpa [stepsAll, steps, spaced] using
          Tight.enclosed "(" ")" (by decide) (by decide) ((spaced [l, token "in", r]).steps false)
      | false => simpa [stepsAll, steps, spaced, token] using whole
  | marked mark _ ih => simpa [stepsAll, steps] using ih b
  | @template tag pieces _ _ tagged codes =>
      have quoted := Tight.enclosed "\x60" "\x60" (by decide) (by decide)
        (stepsAll b (TemplatePiece.fragments (pieces.countP (·.isText)) 0 pieces))
      cases tag with
      | none => simpa [stepsAll_single, Fragment.template, steps, stepsAll, stepsAll_append,
          token] using quoted
      | some tag =>
          have whole := (tagged tag rfl b).append quoted
          simpa [stepsAll_single, Fragment.template, steps, stepsAll, stepsAll_append,
            token] using whole

/-! ## Indentation -/

/-- Instructions that leave the level of indentation as it is. -/
def LevelKept (steps : List (Step Lexeme)) : Prop :=
  ∀ (spelling : Spelling) (layout : Layout) (s : Stream),
    (s.after spelling layout steps).level = s.level

namespace LevelKept

variable {l m : List (Step Lexeme)}

theorem nil : LevelKept [] := fun _ _ _ => rfl

theorem append (left : LevelKept l) (right : LevelKept m) : LevelKept (l ++ m) := by
  intro spelling layout s
  rw [Stream.after_append]
  exact (right spelling layout _).trans (left spelling layout s)

theorem single (step : Step Lexeme) (indent : step ≠ .indent) (dedent : step ≠ .dedent) :
    LevelKept [step] := by
  intro spelling layout s
  have level : (s.stepLexeme spelling layout step).level =
      (step.map (Lexeme.spell spelling)).depth s.level := Stream.level_stepLexeme step
  cases step with
  | indent => exact absurd rfl indent
  | dedent => exact absurd rfl dedent
  | _ => exact level

theorem put (x : Lexeme) : LevelKept [.put x] := single _ (by simp) (by simp)

theorem enclosed (opening closing : Lexeme) (inner : LevelKept l) :
    LevelKept (.put opening :: l ++ [.put closing]) :=
  ((put opening).append inner).append (put closing)

/-- A level that is entered is left. -/
theorem indented (inner : LevelKept l) : LevelKept (.indent :: .lineBreak :: l ++ [.dedent]) := by
  intro spelling layout s
  have onNewLine : LevelKept (.lineBreak :: l) :=
    (single .lineBreak (by simp) (by simp)).append inner
  have deeper := onNewLine spelling layout (s.step layout .indent)
  show ((s.step layout .indent).after spelling layout ((.lineBreak :: l) ++ [.dedent])).level =
    s.level
  rw [Stream.after_append]
  show ((s.step layout .indent).after spelling layout (.lineBreak :: l)).level - 1 = s.level
  rw [deeper]
  rfl

end LevelKept

mutual

/-- **The instructions of a fragment** leave the level of indentation as it is. -/
theorem levelKept_steps (b : Bool) : (f : Fragment) → LevelKept (f.steps b)
  | .empty => by rw [steps]; exact .nil
  | .lexeme l => by rw [steps]; exact .put l
  | .seq children => by rw [steps]; exact levelKept_stepsAll b children
  | .paren inner | .bracket inner | .brace inner => by
      rw [steps]
      exact (levelKept_steps false inner).enclosed _ _
  | .lines children => by rw [steps]; exact levelKept_stepsLines b true children
  | .indent inner => by
      rw [steps]
      split
      · exact .nil
      · exact (levelKept_steps b inner).indented
  | .commaSep children => by rw [steps]; exact levelKept_stepsCommas b true children
  | .noIn inner => by rw [steps]; exact levelKept_steps true inner
  | .containsIn inner => by
      rw [steps]
      split
      · exact (levelKept_steps false inner).enclosed _ _
      · exact levelKept_steps false inner
  | .semicolon => by rw [steps]; exact .put _
  | .optionalSemicolon | .space | .lineBreak => by rw [steps]; exact .single _ (by simp) (by simp)
  | .marked _ inner => by rw [steps]; exact levelKept_steps b inner

theorem levelKept_stepsAll (b : Bool) : (fs : List Fragment) → LevelKept (stepsAll b fs)
  | [] => by rw [stepsAll]; exact .nil
  | f :: fs => by
      rw [stepsAll]
      exact (levelKept_steps b f).append (levelKept_stepsAll b fs)

theorem levelKept_stepsLines (b first : Bool) :
    (fs : List Fragment) → LevelKept (stepsLines b first fs)
  | [] => by rw [stepsLines]; exact .nil
  | f :: fs => by
      have separator : LevelKept (if first then [] else [.lineBreak]) := by
        cases first with
        | true => exact .nil
        | false => exact .single _ (by simp) (by simp)
      rw [stepsLines]
      split
      · exact levelKept_stepsLines b first fs
      · exact (separator.append (levelKept_steps b f)).append (levelKept_stepsLines b false fs)

theorem levelKept_stepsCommas (b first : Bool) :
    (fs : List Fragment) → LevelKept (stepsCommas b first fs)
  | [] => by rw [stepsCommas]; exact .nil
  | f :: fs => by
      have separator : LevelKept (if first then [] else [.put (.verbatim ","), .space]) := by
        cases first with
        | true => exact .nil
        | false => exact (LevelKept.put _).append (.single .space (by simp) (by simp))
      rw [stepsCommas]
      exact (separator.append (levelKept_steps b f)).append (levelKept_stepsCommas b false fs)

end

end Fragment

end EcmaScribe
