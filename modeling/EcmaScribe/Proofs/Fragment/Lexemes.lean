/-
# EcmaScribe.Proofs.Fragment.Lexemes -- the lexemes that a fragment writes

A layout decides about blank space; what is written is the sequence of lexemes.
`Fragment.lexemes` reads it off the instructions, a semicolon that compact output may leave
out counting as one.  Each way to build a fragment has its equation.
-/
import EcmaScribe.Fragment.Phrase
import EcmaScribe.Render

namespace EcmaScribe

set_option autoImplicit false

/-! ## Delimiters of strings and directives -/

theorem Text.delimiterFor_cases (value : List Char) :
    delimiterFor value = '\x27' ∨ delimiterFor value = '\x22' := by
  unfold delimiterFor
  split
  · exact .inl rfl
  · exact .inr rfl

theorem Text.directiveDelimiter_cases (raw : List Char) :
    directiveDelimiter raw = '\x27' ∨ directiveDelimiter raw = '\x22' := by
  unfold directiveDelimiter
  split
  · exact .inl rfl
  · exact .inr rfl

/-! ## Sequences of lexemes -/

/-- What an instruction writes; a semicolon that may be left out counts as one. -/
def Step.written? {τ : Type} (semicolon : τ) : Step τ → Option τ
  | .put token => some token
  | .optionalSemicolon => some semicolon
  | .space | .lineBreak | .indent | .dedent => none

abbrev Step.lexeme? : Step Lexeme → Option Lexeme := Step.written? (.verbatim ";")

abbrev Step.token? : Step Token → Option Token := Step.written? (.text [';'])

namespace Fragment

/-- The lexemes of a fragment in the order in which they are written. -/
def lexemes (noIn : Bool) (f : Fragment) : List Lexeme := (f.steps noIn).filterMap Step.lexeme?

/-- The tokens of a fragment in the order in which they are written. -/
def writtenTokens (spelling : Spelling) (noIn : Bool) (f : Fragment) : List Token :=
  (f.tokens spelling noIn).filterMap Step.token?

/-- The lexemes of fragments with commas in between. -/
def lexemesCommas (noIn first : Bool) : List Fragment → List Lexeme
  | [] => []
  | f :: rest =>
      (if first then [] else [.verbatim ","]) ++ f.lexemes noIn ++ lexemesCommas noIn false rest

/-- The tokens are the lexemes, spelled. -/
theorem writtenTokens_eq (spelling : Spelling) (noIn : Bool) (f : Fragment) :
    f.writtenTokens spelling noIn = (f.lexemes noIn).map (Lexeme.spell spelling) := by
  rw [writtenTokens, tokens, lexemes, List.filterMap_map, List.map_filterMap]
  congr 1
  funext step
  cases step <;> rfl

variable (b : Bool)

@[simp] theorem lexemes_empty : empty.lexemes b = [] := by simp [lexemes, steps]

@[simp] theorem lexemes_lexeme (l : Lexeme) : (lexeme l).lexemes b = [l] := by
  simp [lexemes, steps, Step.written?]

@[simp] theorem lexemes_token (text : String) : (token text).lexemes b = [.verbatim text] :=
  lexemes_lexeme b _

@[simp] theorem lexemes_space : space.lexemes b = [] := by simp [lexemes, steps, Step.written?]

@[simp] theorem lexemes_lineBreak : lineBreak.lexemes b = [] := by
  simp [lexemes, steps, Step.written?]

@[simp] theorem lexemes_semicolon : semicolon.lexemes b = [.verbatim ";"] := by
  simp [lexemes, steps, Step.written?]

@[simp] theorem lexemes_optionalSemicolon :
    optionalSemicolon.lexemes b = [.verbatim ";"] := by
  simp [lexemes, steps, Step.written?]

@[simp] theorem lexemes_paren (f : Fragment) :
    (paren f).lexemes b = .verbatim "(" :: f.lexemes false ++ [.verbatim ")"] := by
  simp [lexemes, steps, Step.written?]

@[simp] theorem lexemes_bracket (f : Fragment) :
    (bracket f).lexemes b = .verbatim "[" :: f.lexemes false ++ [.verbatim "]"] := by
  simp [lexemes, steps, Step.written?]

@[simp] theorem lexemes_brace (f : Fragment) :
    (brace f).lexemes b = .verbatim "\x7b" :: f.lexemes false ++ [.verbatim "\x7d"] := by
  simp [lexemes, steps, Step.written?]

@[simp] theorem lexemes_marked (mark : Mark) (f : Fragment) :
    (marked mark f).lexemes b = f.lexemes b := by
  simp [lexemes, steps]

@[simp] theorem lexemes_noIn (f : Fragment) : (noIn f).lexemes b = f.lexemes true := by
  simp [lexemes, steps]

theorem lexemes_containsIn (f : Fragment) :
    (containsIn f).lexemes b = if b then (paren f).lexemes false else f.lexemes false := by
  cases b <;> simp [lexemes, steps]

theorem lexemes_indent (f : Fragment) :
    (indent f).lexemes b = if f.isBlank then [] else f.lexemes b := by
  by_cases blank : f.isBlank = true <;>
    simp [lexemes, steps, Step.written?, blank]

@[simp] theorem lexemes_seq (children : List Fragment) :
    (seq children).lexemes b = children.flatMap (lexemes b) := by
  simp only [lexemes, steps]
  induction children with
  | nil => simp [stepsAll]
  | cons f rest ih => simp [stepsAll, ih, lexemes]

theorem lexemes_lines (children : List Fragment) :
    (lines children).lexemes b = (children.filter (!·.isBlank)).flatMap (lexemes b) := by
  simp only [lexemes, steps]
  generalize true = first
  induction children generalizing first with
  | nil => simp [stepsLines]
  | cons f rest ih =>
      by_cases blank : f.isBlank = true
      · simp [stepsLines, blank, ih]
      · cases first <;> simp [stepsLines, blank, ih, Step.written?, lexemes]

theorem lexemes_commaSep (children : List Fragment) :
    (commaSep children).lexemes b = lexemesCommas b true children := by
  simp only [lexemes, steps]
  generalize true = first
  induction children generalizing first with
  | nil => simp [stepsCommas, lexemesCommas]
  | cons f rest ih =>
      cases first <;>
        simp [stepsCommas, lexemesCommas, ih, Step.written?, lexemes]

@[simp] theorem lexemes_spaced (f : Fragment) (rest : List Fragment) :
    (spaced (f :: rest)).lexemes b = f.lexemes b ++ rest.flatMap (lexemes b) := by
  rw [spaced, lexemes_seq, List.flatMap_cons, List.flatMap_assoc]
  simp

@[simp] theorem lexemes_statement (f : Fragment) :
    (statement f).lexemes b = f.lexemes b ++ [.verbatim ";"] := by
  simp [statement]

theorem lexemes_template (pieces : List TemplatePiece) :
    (template none pieces).lexemes b = .verbatim "\x60" ::
      (TemplatePiece.fragments (pieces.countP TemplatePiece.isText) 0 pieces).flatMap (lexemes b) ++
        [.verbatim "\x60"] := by
  simp [template]

theorem lexemes_block (children : List Fragment) :
    (block children).lexemes b =
      if allBlank children then [.verbatim "\x7b", .verbatim "\x7d"]
      else .verbatim "\x7b" :: (lines children).lexemes false ++ [.verbatim "\x7d"] := by
  have blank : (lines children).isBlank = allBlank children := by simp [isBlank]
  unfold block braceLines
  split
  · simp
  · rename_i written
    simp [lexemes_indent, blank, written]

end Fragment

end EcmaScribe
