/-
# EcmaScribe.Proofs.Fragment.Commas -- lexemes split at commas

A reader finds the elements of a list by the commas that stand outside nested brackets and
outside the substitutions of templates (`splitCommas`).  Substitutions are opened and closed by
template text.  So template text is read as one lexeme with braces of its own beside it
(`Lexeme.unfolded`), and what is known of lexemes outside brackets (`ExposesOnly`) applies.

What is put together by the rules of `Composed` is closed: its brackets and substitutions match
(`Composed.closed`).  What has, besides, no comma outside of them stays in one piece
(`splitCommas_append`), and a list of such fragments is split into them
(`splitCommas_lexemesCommas`).
-/
import EcmaScribe.Proofs.Fragment.Nesting

namespace EcmaScribe

set_option autoImplicit false

/-! ## Template text as brackets -/

namespace Lexeme

/-- The brace that ends a substitution and the one that starts the next are brackets of their
own. -/
def unfolded : Lexeme → List Lexeme
  | chunk follows leads raw =>
      (if follows then [verbatim "\x7d"] else []) ++ chunk follows leads raw ::
        if leads then [verbatim "\x7b"] else []
  | l => [l]

/-- How many brackets and substitutions are open after a lexeme. -/
def depthAfter (depth : Nat) : Lexeme → Nat
  | chunk follows leads _ => depth - follows.toNat + leads.toNat
  | l =>
      match l.bracketing with
      | .opens _ => depth + 1
      | .closes _ => depth - 1
      | .plain => depth

end Lexeme

/-- Brackets and substitutions match, and outside of them there is only what `P` allows. -/
abbrev Seals (P : Lexeme → Prop) (l : List Lexeme) : Prop := ExposesOnly P (l.flatMap Lexeme.unfolded)

/-- Brackets and substitutions match. -/
abbrev Closed : List Lexeme → Prop := Seals fun _ => True

/-- Brackets and substitutions match, and every comma stands within them. -/
abbrev CommaFree : List Lexeme → Prop := Seals (· ≠ .verbatim ",")

/-! ## Splitting -/

/-- The parts between the commas that stand outside brackets and substitutions; `depth` of them are
open at first. -/
def splitCommas : Nat → List Lexeme → List (List Lexeme)
  | _, [] => [[]]
  | depth, l :: rest =>
      if depth = 0 ∧ l = .verbatim "," then [] :: splitCommas 0 rest
      else (splitCommas (l.depthAfter depth) rest).modifyHead (l :: ·)

/-- The segments of a list: a comma at its end opens no further one. -/
def segments (l : List Lexeme) : List (List Lexeme) :=
  if (splitCommas 0 l).getLast? = some [] then (splitCommas 0 l).dropLast else splitCommas 0 l

/-- What a lexeme that is no template text leaves to be read. -/
theorem exists_exposed_cons {awaited : List String} {x : Lexeme} {l o : List Lexeme}
    (h : exposed awaited (x :: l) = some o) : ∃ awaited' o', exposed awaited' l = some o' ∧
      awaited'.length = (match x.bracketing with
        | .opens _ => awaited.length + 1
        | .closes _ => awaited.length - 1
        | .plain => awaited.length) ∧
      (∀ y ∈ o', y ∈ o) ∧ (awaited = [] → x.bracketing = .plain → x ∈ o) := by
  cases role : x.bracketing with
  | opens closer =>
      refine ⟨closer :: awaited, o, by simpa [exposed, role] using h, rfl, by simp, by simp⟩
  | closes closer =>
      cases awaited with
      | nil => simp [exposed, role] at h
      | cons innermost outer =>
          obtain ⟨-, inner⟩ : closer = innermost ∧ exposed outer l = some o := by
            simpa [exposed, role] using h
          exact ⟨outer, o, inner, rfl, by simp, by simp⟩
  | plain =>
      cases awaited with
      | cons innermost outer =>
          exact ⟨innermost :: outer, o, by simpa [exposed, role] using h, rfl, by simp, by simp⟩
      | nil =>
          obtain ⟨p, inner, rfl⟩ : ∃ p, exposed [] l = some p ∧ x :: p = o := by
            simpa [exposed, role] using h
          exact ⟨[], p, inner, rfl, fun _ => List.mem_cons_of_mem _, by simp⟩

theorem exists_exposed_unfolded {awaited : List String} {x : Lexeme} {l o : List Lexeme}
    (h : exposed awaited (x.unfolded ++ l) = some o) : ∃ awaited' o', exposed awaited' l = some o' ∧
      awaited'.length = x.depthAfter awaited.length ∧ (∀ y ∈ o', y ∈ o) ∧
      (awaited = [] → x = .verbatim "," → x ∈ o) := by
  cases x with
  | chunk follows leads raw =>
      obtain ⟨inText, o₁, text, depth₁, subset₁⟩ : ∃ inText o₁, exposed inText
          (.chunk follows leads raw :: ((if leads then [.verbatim "\x7b"] else []) ++ l)) =
            some o₁ ∧ inText.length = awaited.length - follows.toNat ∧ ∀ y ∈ o₁, y ∈ o := by
        cases follows with
        | false => exact ⟨awaited, o, by simpa [Lexeme.unfolded] using h, rfl, fun _ => id⟩
        | true =>
            obtain ⟨inText, o₁, text, depth, subset, -⟩ :=
              exists_exposed_cons (x := .verbatim "\x7d") (by simpa [Lexeme.unfolded] using h)
            exact ⟨inText, o₁, text, depth, subset⟩
      obtain ⟨behind, o₂, rest, depth₂, subset₂, -⟩ := exists_exposed_cons text
      have below : ∀ y ∈ o₂, y ∈ o := fun y member => subset₁ y (subset₂ y member)
      cases leads with
      | false =>
          exact ⟨behind, o₂, rest, by simpa [Lexeme.depthAfter] using depth₂.trans depth₁, below,
            by simp⟩
      | true =>
          obtain ⟨inCode, o₃, code, depth₃, subset₃, -⟩ := exists_exposed_cons rest
          refine ⟨inCode, o₃, code, ?_, fun y member => below y (subset₃ y member), by simp⟩
          exact depth₃.trans (congrArg (· + 1) (depth₂.trans depth₁))
  | _ =>
      obtain ⟨awaited', o', rest, depth, subset, own⟩ := exists_exposed_cons h
      exact ⟨awaited', o', rest, depth, subset, fun outside comma => own outside (comma ▸ rfl)⟩

theorem splitCommas_of_exposed {awaited : List String} {l o : List Lexeme}
    (h : exposed awaited (l.flatMap Lexeme.unfolded) = some o) (free : .verbatim "," ∉ o)
    (rest : List Lexeme) :
    splitCommas awaited.length (l ++ rest) = (splitCommas 0 rest).modifyHead (l ++ ·) := by
  induction l generalizing awaited o with
  | nil =>
      cases awaited with
      | cons innermost outer => simp [exposed] at h
      | nil => cases parts : splitCommas 0 rest <;> simp [parts]
  | cons x l ih =>
      rw [List.flatMap_cons] at h
      obtain ⟨awaited', o', inner, depth, subset, own⟩ := exists_exposed_unfolded h
      have noSeparator : ¬ (awaited.length = 0 ∧ x = .verbatim ",") := by
        rintro ⟨outside, comma⟩
        exact free (comma ▸ own (List.eq_nil_of_length_eq_zero outside) comma)
      rw [List.cons_append, splitCommas, if_neg noSeparator, ← depth,
        ih inner fun member => free (subset _ member), List.modifyHead_modifyHead]
      rfl

/-- **What has no comma outside brackets** stays in one piece. -/
theorem splitCommas_append {l : List Lexeme} (h : CommaFree l) (rest : List Lexeme) :
    splitCommas 0 (l ++ rest) = (splitCommas 0 rest).modifyHead (l ++ ·) := by
  obtain ⟨o, reads, free⟩ := h
  exact splitCommas_of_exposed reads (fun member => free _ member rfl) rest

/-- **A list of fragments** is split into them, whether or not a comma follows the last one. -/
theorem splitCommas_lexemesCommas {b : Bool} {f : Fragment} {fs : List Fragment}
    (h : ∀ g ∈ f :: fs, CommaFree (g.lexemes b)) (trailing : Bool) :
    splitCommas 0 (Fragment.lexemesCommas b true (f :: fs) ++
        if trailing then [.verbatim ","] else []) =
      (f :: fs).map (·.lexemes b) ++ if trailing then [[]] else [] := by
  induction fs generalizing f with
  | nil =>
      have first := splitCommas_append (h f (by simp)) (if trailing then [.verbatim ","] else [])
      cases trailing <;> simpa [Fragment.lexemesCommas, splitCommas] using first
  | cons g fs ih =>
      have later := ih fun g' member => h g' (List.mem_cons_of_mem _ member)
      have comma : Fragment.lexemesCommas b false (g :: fs) =
          .verbatim "," :: Fragment.lexemesCommas b true (g :: fs) := rfl
      rw [Fragment.lexemesCommas, if_pos rfl, List.nil_append, List.append_assoc,
        splitCommas_append (h f (by simp)), comma, List.cons_append, splitCommas, if_pos ⟨rfl, rfl⟩,
        later]
      simp

/-! ## Templates -/

namespace Node

/-- Parts of a template with a chunk at the end. -/
inductive EndsInChunk : Node (.list .templatePart) → Prop
  | last (raw : String) : EndsInChunk (.cons (.chunk raw) .nil)
  | before (part : Node .templatePart) {rest : Node (.list .templatePart)}
      (tail : EndsInChunk rest) : EndsInChunk (.cons part rest)

/-- Parts of a template in which every substitution stands between two chunks. -/
inductive Framed : Node (.list .templatePart) → Prop
  | empty : Framed .nil
  | single (raw : String) : Framed (.cons (.chunk raw) .nil)
  | opened (raw : String) {rest : Node (.list .templatePart)} (tail : EndsInChunk rest) :
      Framed (.cons (.chunk raw) rest)

/-- How many chunks a template has. -/
def chunkCount (parts : Node (.list .templatePart)) : Nat :=
  parts.fragment.countP Fragment.TemplatePiece.isText

theorem chunkCount_chunk (raw : String) (rest : Node (.list .templatePart)) :
    (cons (.chunk raw) rest).chunkCount = rest.chunkCount + 1 :=
  List.countP_cons_of_pos rfl

theorem chunkCount_substitution (expression : Expression) (rest : Node (.list .templatePart)) :
    (cons (.substitution expression) rest).chunkCount = rest.chunkCount :=
  List.countP_cons_of_neg Bool.false_ne_true

theorem EndsInChunk.chunkCount_pos {parts : Node (.list .templatePart)} (ends : parts.EndsInChunk) :
    0 < parts.chunkCount := by
  induction ends with
  | last raw => rw [chunkCount_chunk]; omega
  | before part _ ih =>
      cases part with
      | chunk raw => rw [chunkCount_chunk]; omega
      | substitution expression => rwa [chunkCount_substitution]

/-- What is written for the parts after `done` chunks, of `total` in all. -/
def unfoldedParts (b : Bool) (total done : Nat) (parts : Node (.list .templatePart)) :
    List Lexeme :=
  ((Fragment.TemplatePiece.fragments total done parts.fragment).flatMap
    (Fragment.lexemes b)).flatMap Lexeme.unfolded

section Parts

variable (b : Bool) (total done : Nat) (rest : Node (.list .templatePart))

theorem unfoldedParts_nil : unfoldedParts b total done .nil = [] := rfl

theorem unfoldedParts_chunk (raw : String) : unfoldedParts b total done (cons (.chunk raw) rest) =
    (Lexeme.chunk (decide (0 < done)) (decide (done + 1 < total)) raw).unfolded ++
      unfoldedParts b total (done + 1) rest := by
  show ((Fragment.lexeme (.chunk (decide (0 < done)) (decide (done + 1 < total)) raw) ::
    Fragment.TemplatePiece.fragments total (done + 1) rest.fragment).flatMap _).flatMap _ = _
  simp [unfoldedParts]

theorem unfoldedParts_substitution (expression : Expression) :
    unfoldedParts b total done (cons (.substitution expression) rest) =
      (expression.fragment.lexemes b).flatMap Lexeme.unfolded ++
        unfoldedParts b total done rest := by
  show ((expression.fragment ::
    Fragment.TemplatePiece.fragments total done rest.fragment).flatMap _).flatMap _ = _
  simp [unfoldedParts]

end Parts

end Node

/-- The substitutions of a template stand between its chunks. -/
def Leaf.Framed : Leaf → Prop
  | template parts => parts.Framed
  | _ => True

section Templates

variable {P : Lexeme → Prop}

/-- Balanced lexemes may be put behind an open bracket. -/
theorem ExposesOnly.insert {opening closing : String} {l m : List Lexeme}
    (pair : Bracketing.ofWord opening = .opens closing)
    (h : ExposesOnly P (.verbatim opening :: m)) (inner : Balanced l) :
    ExposesOnly P (.verbatim opening :: (l ++ m)) := by
  obtain ⟨o, reads, allowed⟩ := h
  obtain ⟨p, passed, -⟩ := inner
  have opens : (Lexeme.verbatim opening).bracketing = .opens closing := pair
  have behind : exposed [closing] (l ++ m) = exposed [closing] m := by
    simpa using exposed_append passed [closing] m
  refine ⟨o, ?_, allowed⟩
  simpa [exposed, opens, behind] using reads

variable (chunks : ∀ follows leads raw, P (.chunk follows leads raw))

include chunks

/-- The parts behind a substitution that is still open. -/
theorem seals_openParts {parts : Node (.list .templatePart)} (ends : parts.EndsInChunk) {b : Bool}
    (codes : ∀ f, .code f ∈ parts.fragment → Closed (f.lexemes b)) {done : Nat} (some : 0 < done) :
    ExposesOnly P (.verbatim "\x7b" :: parts.unfoldedParts b (done + parts.chunkCount) done) := by
  have substituted : ExposesOnly P [.verbatim "\x7b", .verbatim "\x7d"] := .brace .nil
  have text (follows leads : Bool) (raw : String) : ExposesOnly P [.chunk follows leads raw] :=
    .single Lexeme.avoids_chunk (chunks follows leads raw)
  have follows : decide (0 < done) = true := decide_eq_true some
  induction ends generalizing done with
  | last raw =>
      have last : decide (done + 1 < done + (Node.nil.chunkCount + 1)) = false :=
        decide_eq_false (Nat.lt_irrefl _)
      rw [Node.chunkCount_chunk, Node.unfoldedParts_chunk, Node.unfoldedParts_nil, follows, last]
      exact substituted.append (text true false raw)
  | @before part rest tail ih =>
      have later := @ih fun f member => codes f (List.mem_cons_of_mem _ member)
      cases part with
      | chunk raw =>
          have total : done + (rest.chunkCount + 1) = done + 1 + rest.chunkCount := by omega
          have leads : decide (done + 1 < done + 1 + rest.chunkCount) = true :=
            decide_eq_true (Nat.lt_add_of_pos_right tail.chunkCount_pos)
          rw [Node.chunkCount_chunk, Node.unfoldedParts_chunk, follows, total, leads]
          exact (substituted.append (text true true raw)).append
            (later (Nat.succ_pos done) (decide_eq_true (Nat.succ_pos done)))
      | substitution expression =>
          rw [Node.chunkCount_substitution, Node.unfoldedParts_substitution]
          exact (later some follows).insert rfl (codes _ List.mem_cons_self)

/-- **A template is sealed**: outside its substitutions there is only template text. -/
theorem seals_template {parts : Node (.list .templatePart)} (framed : parts.Framed) {b : Bool}
    (codes : ∀ f, .code f ∈ parts.fragment → Closed (f.lexemes b))
    (quote : P (.verbatim "\x60")) :
    Seals P ((Fragment.template none parts.fragment).lexemes b) := by
  have mark : ExposesOnly P [.verbatim "\x60"] :=
    .single (Lexeme.avoids_verbatim.2 (by decide)) quote
  have text (follows leads : Bool) (raw : String) : ExposesOnly P [.chunk follows leads raw] :=
    .single Lexeme.avoids_chunk (chunks follows leads raw)
  have inner : ExposesOnly P (parts.unfoldedParts b parts.chunkCount 0) := by
    cases framed with
    | empty => exact .nil
    | single raw => exact text false false raw
    | @opened raw rest tail =>
        have total : rest.chunkCount + 1 = 1 + rest.chunkCount := Nat.add_comm _ _
        have leads : decide (0 + 1 < 1 + rest.chunkCount) = true :=
          decide_eq_true (Nat.lt_add_of_pos_right tail.chunkCount_pos)
        rw [Node.chunkCount_chunk, Node.unfoldedParts_chunk, total, leads]
        exact (text false true raw).append (seals_openParts chunks tail
          (fun f member => codes f (List.mem_cons_of_mem _ member)) Nat.one_pos)
  have whole := (mark.append inner).append mark
  rw [Fragment.lexemes_template]
  simpa [Seals, Node.unfoldedParts, Node.chunkCount, Lexeme.unfolded] using whole

end Templates

/-! ## Composed lexemes -/

namespace Seals

variable {P : Lexeme → Prop} {l m : List Lexeme}

theorem append (left : Seals P l) (right : Seals P m) : Seals P (l ++ m) := by
  simpa [Seals] using ExposesOnly.append left right

theorem word {text : String} (noBracket : text ∉ bracketTexts) (allowed : P (.verbatim text)) :
    Seals P [.verbatim text] := .single (Lexeme.avoids_verbatim.2 noBracket) allowed

theorem flatMap {α : Type} {f : α → List Lexeme} {xs : List α} (h : ∀ x ∈ xs, Seals P (f x)) :
    Seals P (xs.flatMap f) := by
  rw [Seals, List.flatMap_assoc]
  exact ExposesOnly.flatMap h

/-- Nothing stands outside a pair of brackets. -/
theorem enclosed {opening closing : String} (pair : Bracketing.ofWord opening = .opens closing)
    (own : Bracketing.ofWord closing = .closes closing) (inner : Closed l) :
    Seals P (.verbatim opening :: l ++ [.verbatim closing]) := by
  simpa [Seals, Lexeme.unfolded] using ExposesOnly.enclosed (P := P) pair own inner

end Seals

/-- The leaf is written as no bracket and no comma; a template frames its substitutions. -/
structure Leaf.Whole (leaf : Leaf) : Prop where
  avoids : leaf.Avoids ("," :: bracketTexts)
  framed : leaf.Framed

/-- No leaf is template text. -/
theorem Leaf.unfolded_of_written {leaf : Leaf} {l : Lexeme} (written : leaf.lexeme? = some l) :
    l.unfolded = [l] := by
  cases leaf with
  | key value =>
      simp only [lexeme?, Option.some.injEq] at written
      subst written
      split
      · rfl
      · split <;> rfl
  | template parts => cases written
  | _ =>
      cases written
      rfl

theorem Leaf.Whole.commaFree {leaf : Leaf} (whole : leaf.Whole) {l : Lexeme}
    (written : leaf.lexeme? = some l) : CommaFree [l] := by
  have avoids : l.Avoids ("," :: bracketTexts) := whole.avoids l written
  have noComma : l ≠ .verbatim "," := fun comma => avoids "," (by simp [comma, Lexeme.word?]) (by simp)
  have own : ExposesOnly (· ≠ .verbatim ",") [l] :=
    .single (avoids.mono (List.subset_cons_self ..)) noComma
  simpa [CommaFree, Seals, unfolded_of_written written] using own

/-- **Brackets and substitutions match** in all that is put together by the rules. -/
theorem Composed.closed {s : Standing} {b : Bool} {l : List Lexeme}
    (h : Composed Leaf.Whole s b l) : Closed l := by
  have words : (∀ text ∈ finishedTexts, text ∉ bracketTexts) ∧
      (∀ text ∈ infixTexts, text ∉ bracketTexts) ∧ ∀ text ∈ prefixTexts, text ∉ bracketTexts := by
    decide
  obtain ⟨finishedTexts, infixTexts, prefixTexts⟩ := words
  have word {text : String} (plain : text ∉ bracketTexts) : Closed [.verbatim text] :=
    .word plain trivial
  induction h with
  | nil => exact ExposesOnly.nil
  | append _ _ left right | andThen _ _ left right => exact left.append right
  | operand _ ih => exact ih
  | leaf whole written => exact (whole.commaFree written).balanced
  | infinity => exact ExposesOnly.single (by simp [Lexeme.Avoids, Lexeme.word?]) trivial
  | word text finished => exact word (finishedTexts _ finished)
  | prefixed text operator _ ih => exact (word (prefixTexts _ operator)).append ih
  | infixed operator _ _ left right => exact left.append ((word (infixTexts _ operator)).append right)
  | isIn _ _ left right => exact left.append ((word (by decide)).append right)
  | starred _ ih => exact (word (by decide)).append ih
  | member admitted _ ih =>
      exact ih.append ((word (by decide)).append (admitted.commaFree rfl).balanced)
  | newTarget => exact (word (by decide)).append ((word (by decide)).append (word (by decide)))
  | paren _ ih | bracket _ ih | brace _ ih => exact .enclosed rfl rfl ih
  | template whole _ ih => exact seals_template (fun _ _ _ => trivial) whole.framed ih trivial

namespace Fragment

theorem Phrase.closed {f : Fragment} (h : Phrase Leaf.Whole f) (b : Bool) : Closed (f.lexemes b) :=
  (h b).closed

/-! ## Uncut fragments -/

/-- Every comma that the fragment writes stands within brackets or a substitution. -/
def Uncut (f : Fragment) : Prop := ∀ b, CommaFree (f.lexemes b)

theorem uncut_leaf {leaf : Leaf} (whole : leaf.Whole) {l : Lexeme} (written : leaf.lexeme? = some l) :
    Uncut (lexeme l) := fun b => by simpa using whole.commaFree written

theorem uncut_token {text : String} (free : text ∉ "," :: bracketTexts) : Uncut (token text) :=
  fun b => by
    rw [List.mem_cons, not_or] at free
    simpa using Seals.word free.2 (by simpa using free.1)

theorem uncut_space : Uncut space := fun b => by
  rw [lexemes_space]
  exact ExposesOnly.nil

theorem uncut_paren {f : Fragment} (inner : Phrase Leaf.Whole f) : Uncut (paren f) := fun b => by
  rw [lexemes_paren]
  exact .enclosed rfl rfl (inner.closed false)

theorem uncut_bracket {f : Fragment} (inner : Phrase Leaf.Whole f) : Uncut (bracket f) :=
  fun b => by
    rw [lexemes_bracket]
    exact .enclosed rfl rfl (inner.closed false)

theorem uncut_brace {f : Fragment} (inner : Phrase Leaf.Whole f) : Uncut (brace f) := fun b => by
  rw [lexemes_brace]
  exact .enclosed rfl rfl (inner.closed false)

theorem uncut_marked {mark : Mark} {f : Fragment} (h : Uncut f) : Uncut (marked mark f) :=
  fun b => by simpa using h b

theorem uncut_containsIn {f : Fragment} (h : Uncut f) : Uncut (containsIn f) := fun b => by
  rw [lexemes_containsIn]
  split
  · rw [lexemes_paren]
    exact .enclosed rfl rfl (h false).balanced
  · exact h false

theorem uncut_seq {fs : List Fragment} (h : ∀ f ∈ fs, Uncut f) : Uncut (seq fs) := fun b => by
  rw [lexemes_seq]
  exact .flatMap fun f member => h f member b

theorem uncut_spaced {fs : List Fragment} (h : ∀ f ∈ fs, Uncut f) : Uncut (spaced fs) := by
  cases fs with
  | nil =>
      intro b
      rw [spaced, lexemes_empty]
      exact ExposesOnly.nil
  | cons f fs =>
      refine uncut_seq (List.forall_mem_cons.2 ⟨h f List.mem_cons_self, fun g member => ?_⟩)
      obtain ⟨g', listed, either⟩ := List.mem_flatMap.1 member
      rcases List.mem_cons.1 either with rfl | own
      · exact uncut_space
      · exact List.mem_singleton.1 own ▸ h g' (List.mem_cons_of_mem _ listed)

theorem uncut_parenIf (condition : Bool) {f : Fragment} (h : condition = false → Uncut f)
    (inner : Phrase Leaf.Whole f) : Uncut (parenIf condition f) := by
  cases condition with
  | true => exact uncut_paren inner
  | false => exact h rfl

/-- Only a sequence has commas of its own, and every place in a list asks for more. -/
theorem uncut_atLeast {required : Precedence} {node : Expression} {f : Fragment}
    (above : .sequence < required) (h : node.precedence ≠ .sequence → Uncut f)
    (inner : Phrase Leaf.Whole f) : Uncut (atLeast required node f) := by
  unfold atLeast
  split
  · exact uncut_paren inner
  · rename_i tight
    exact h fun loosest => tight (loosest ▸ above)

/-! ## Uncut phrases -/

theorem uncut_infixed {text : String} {f g : Fragment} (free : text ∉ "," :: bracketTexts)
    (left : Uncut f) (right : Uncut g) : Uncut (spaced [f, token text, g]) :=
  uncut_spaced (by simpa using ⟨left, uncut_token free, right⟩)

theorem uncut_prefixed {text : String} {f : Fragment} (free : text ∉ "," :: bracketTexts)
    (operand : Uncut f) : Uncut (spaced [token text, f]) :=
  uncut_spaced (by simpa using ⟨uncut_token free, operand⟩)

theorem uncut_defaulted {target value : Fragment} {node : Expression} (left : Uncut target)
    (right : node.precedence ≠ .sequence → Uncut value) (inner : Phrase Leaf.Whole value) :
    Uncut (defaulted target node value) :=
  uncut_infixed (by decide) left (uncut_atLeast (by decide) right inner)

theorem uncut_rest {f : Fragment} (h : Uncut f) : Uncut (rest f) :=
  uncut_seq (by simpa using ⟨uncut_token (by decide), h⟩)

theorem uncut_block {fs : List Fragment} (h : ∀ f ∈ fs, Phrase Leaf.Whole f) :
    Uncut (block fs) := by
  unfold block
  split
  · exact uncut_brace phrase_empty
  · exact uncut_brace (phrase_seq (by
      simpa using ⟨phrase_indent (phrase_lines h), fun b => by simpa using Composed.nil⟩))

theorem uncut_objectBraces {fs : List Fragment} (h : ∀ f ∈ fs, Phrase Leaf.Whole f) :
    Uncut (objectBraces fs) := uncut_marked (uncut_brace (phrase_commaSep h))

theorem uncut_memberObject {object : Node .subject} {f : Fragment}
    (h : object.precedence ≠ .sequence → Uncut f) (inner : Phrase Leaf.Whole f) :
    Uncut (memberObject object f) :=
  uncut_parenIf _ (fun tight => h fun loosest => by simp [loosest] at tight; exact tight (by decide))
    inner

theorem uncut_staticMember {object : Node .subject} {f : Fragment} {property : String}
    (whole : (Leaf.name .member property).Whole) (h : object.precedence ≠ .sequence → Uncut f)
    (inner : Phrase Leaf.Whole f) : Uncut (staticMember object f property) :=
  uncut_seq (by simpa using
    ⟨uncut_memberObject h inner, uncut_token (by decide), uncut_leaf whole rfl⟩)

theorem uncut_computedMember {object : Node .subject} {f key : Fragment}
    (h : object.precedence ≠ .sequence → Uncut f) (inner : Phrase Leaf.Whole f)
    (hKey : Phrase Leaf.Whole key) : Uncut (computedMember object f key) := by
  have access : Uncut (seq [memberObject object f, bracket key]) :=
    uncut_seq (by simpa using ⟨uncut_memberObject h inner, uncut_bracket hKey⟩)
  unfold computedMember markedIf
  split
  · exact uncut_marked access
  · exact access

theorem uncut_asyncHead (isAsync : Bool) : ∀ f ∈ asyncHead isAsync, Uncut f := by
  cases isAsync with
  | true => simpa [asyncHead] using ⟨uncut_token (by decide), uncut_space⟩
  | false => simp [asyncHead]

theorem uncut_function {isAsync isGenerator : Bool} {name : Option Fragment}
    {params body : Fragment} (hName : ∀ f ∈ name, Uncut f) (hParams : Uncut params)
    (hBody : Uncut body) : Uncut (function isAsync isGenerator name params body) := by
  have keyword : Uncut (token "function") := uncut_token (by decide)
  have star : ∀ f ∈ generatorStar isGenerator, Uncut f := by
    cases isGenerator with
    | true => simpa [generatorStar] using uncut_token (by decide)
    | false => simp [generatorStar]
  have named : ∀ f ∈ name.toList.flatMap (fun name => [space, name]), Uncut f := by
    cases name with
    | none => simp
    | some name => simpa using ⟨uncut_space, hName name rfl⟩
  refine uncut_seq ?_
  simp only [List.forall_mem_append, List.forall_mem_cons]
  exact ⟨⟨⟨uncut_asyncHead isAsync, keyword, star⟩, named⟩, hParams, uncut_space, hBody, by simp⟩

theorem uncut_class {name heritage : Option Fragment} {elements : List Fragment}
    (hName : ∀ f ∈ name, Uncut f) (hHeritage : ∀ f ∈ heritage, Uncut f)
    (h : ∀ f ∈ elements, Phrase Leaf.Whole f) : Uncut (class_ name heritage elements) := by
  have inherits : ∀ f ∈ heritage.toList.flatMap (fun f => [token "extends", f]), Uncut f := by
    cases heritage with
    | none => simp
    | some heritage => simpa using ⟨uncut_token (by decide), hHeritage heritage rfl⟩
  refine uncut_spaced ?_
  simp only [List.forall_mem_append, List.forall_mem_cons]
  exact ⟨⟨⟨uncut_token (by decide), by simpa using hName⟩, inherits⟩, uncut_block h, by simp⟩

theorem uncut_binary {left right : Expression} {operator : BinaryOperator} {l r : Fragment}
    (single : operator ≠ .sequence) (hLeft : left.precedence ≠ .sequence → Uncut l)
    (hRight : right.precedence ≠ .sequence → Uncut r) (innerLeft : Phrase Leaf.Whole l)
    (innerRight : Phrase Leaf.Whole r) : Uncut (binary left operator right l r) := by
  have above : .sequence < operator.precedence := by
    cases operator <;> first | exact absurd rfl single | decide
  have operands : Uncut (binaryOperands left operator right l r).1 ∧
      Uncut (binaryOperands left operator right l r).2 := by
    have reaches : Precedence.sequence ≤ operator.precedence := Nat.le_of_lt above
    unfold binaryOperands
    dsimp only
    split
    · refine ⟨uncut_parenIf _ (fun tight => hLeft fun loosest => ?_) innerLeft,
        uncut_atLeast above hRight innerRight⟩
      simp [loosest, reaches] at tight
    · refine ⟨uncut_atLeast above hLeft innerLeft,
        uncut_parenIf _ (fun tight => hRight fun loosest => ?_) innerRight⟩
      simp [loosest, reaches] at tight
  obtain ⟨first, second⟩ := operands
  cases operator with
  | sequence => exact absurd rfl single
  | isIn => exact uncut_containsIn (uncut_infixed (by decide) first second)
  | _ => exact uncut_infixed (by decide) first second

theorem uncut_unary {operator : UnaryOperator} {operand : Expression} {f : Fragment}
    (h : operand.precedence ≠ .sequence → Uncut f) (inner : Phrase Leaf.Whole f) :
    Uncut (unary operator operand f) := by
  have argument : Uncut (atLeast .prefixed operand f) := uncut_atLeast (by decide) h inner
  cases operator with
  | typeOf | void | delete => exact uncut_prefixed (by decide) argument
  | plus | minus | logicalNot | bitNot =>
      exact uncut_seq (by simpa using ⟨uncut_token (by decide), argument⟩)

theorem uncut_template {tag : Option Fragment} {parts : Node (.list .templatePart)}
    (framed : parts.Framed) (hTag : ∀ f ∈ tag, Uncut f)
    (codes : ∀ f, .code f ∈ parts.fragment → Phrase Leaf.Whole f) :
    Uncut (template tag parts.fragment) := by
  intro b
  have untagged : CommaFree ((template none parts.fragment).lexemes b) :=
    seals_template (by simp) framed (fun f member => (codes f member).closed b) (by simp)
  cases tag with
  | none => exact untagged
  | some tag => simpa [template] using (hTag tag rfl b).append untagged

end Fragment

end EcmaScribe
