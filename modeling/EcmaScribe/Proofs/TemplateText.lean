/-
# EcmaScribe.Proofs.TemplateText -- the text of a template is written as it is

Blank space inside a template is text, so nothing may be added next to it.  A chunk is written with
the braces that close and open the substitutions around it, and these are fences: whatever the
chunk, no gap is left on either side (`text_after_pieceSteps`).  A substitution starts and ends
with a token, so it brings no space, break or semicolon of its own.

`print_of_mem_templates`: at each place where a template stands, all that is written between its
backticks is its chunks and its substitutions, each substitution as a stream writes it that has
nothing in front.
-/
import EcmaScribe.Proofs.Fragment.Tight
import EcmaScribe.Proofs.SafeSpelling
import EcmaScribe.Proofs.Text.Contract
import EcmaScribe.Proofs.Tree.Code
import EcmaScribe.Proofs.Tree.Within
import EcmaScribe.Proofs.WebSafe

namespace EcmaScribe

set_option autoImplicit false

open Text Fragment

/-! ## Chunks -/

theorem Text.sanitize_of_isWebSafe {text : List Char} (safe : isWebSafe text = true) :
    sanitize text = text := by
  rw [← getD_sanitize? text, sanitize?_eq_none safe]
  rfl

/-- A stream writes what is safe as the spelling has it. -/
theorem Lexeme.writtenText_of_isWebSafe {spelling : Spelling} {layout : Layout} {l : Lexeme}
    {text : List Char} (spelled : l.spell spelling = .text text)
    (safe : layout.safe = true → isWebSafe text = true) : l.writtenText spelling layout = text := by
  unfold writtenText
  rw [spelled]
  show (if layout.safe then sanitize text else text) = text
  split
  · rename_i sanitizes
    exact sanitize_of_isWebSafe (safe sanitizes)
  · rfl

/-- The braces around a sanitized chunk make nothing unsafe. -/
theorem isWebSafe_chunkText (follows leads : Bool) (raw : List Char) :
    isWebSafe (Lexeme.chunkText .webSafe follows leads raw) = true := by
  have inner : isWebSafe (sanitize raw) = true := isWebSafe_sanitize raw
  have opens : isWebSafe (sanitize raw ++ if leads then ['$', '\x7b'] else []) = true := by
    cases leads with
    | false => simpa using inner
    | true => exact isWebSafe_append_cons (by decide) inner (by decide)
  cases follows with
  | false => simpa [Lexeme.chunkText, Spelling.literalText] using opens
  | true =>
      have whole := isWebSafe_cons (c := '\x7d') (by decide) (by decide) opens
      simpa [Lexeme.chunkText, Spelling.literalText] using whole

/-- A layout that sanitizes goes with the spelling that does. -/
def Layout.Fits (layout : Layout) (spelling : Spelling) : Prop :=
  layout.safe = true → spelling = .webSafe

theorem writtenText_chunk {spelling : Spelling} {layout : Layout} (fits : layout.Fits spelling)
    (follows leads : Bool) (raw : String) :
    (Lexeme.chunk follows leads raw).writtenText spelling layout =
      Lexeme.chunkText spelling follows leads raw.toList := by
  refine Lexeme.writtenText_of_isWebSafe rfl fun safe => ?_
  rw [fits safe]
  exact isWebSafe_chunkText _ _ _

namespace Node

/-! ## Templates -/

/-- A template tells of itself. -/
def ownTemplate {c : Category} (n : Node c) :
    List (Node (.option .expression) × Node (.list .templatePart)) :=
  match c, n with
  | .expression, .template tag parts => [(tag, parts)]
  | _, _ => []

/-- The templates of a tree, at any depth, with their tags. -/
def templates {c : Category} (n : Node c) :
    List (Node (.option .expression) × Node (.list .templatePart)) :=
  n.collect ownTemplate

theorem forall_mem_ownTemplate
    {p : {c : Category} → Node c → Node (.option .expression) × Node (.list .templatePart) → Prop}
    (here : ∀ tag parts, p (template tag parts) (tag, parts)) {c : Category} (n : Node c) :
    ∀ t ∈ n.ownTemplate, p n t := by
  intro t member
  unfold ownTemplate at member
  split at member
  · obtain rfl := List.mem_singleton.1 member
    exact here _ _
  · cases member

theorem isBlank_template (tag : Node (.option .expression)) (parts : Node (.list .templatePart)) :
    (template tag parts).fragment.isBlank = false := by
  have quote : Within (token "\x60") (template tag parts).fragment := by
    rw [fragment_template]
    exact .seq (by simp) .here
  exact quote.isBlank (by simp [token, isBlank, Lexeme.isBlank])

theorem placed_templates :
    Placed ownTemplate fun t => (template t.1 t.2).fragment where
  here := forall_mem_ownTemplate
    (p := fun {c} n t => c.Contains (template t.1 t.2).fragment n.fragment) fun _ _ => .here
  written := forall_mem_ownTemplate
    (p := fun _ t => (template t.1 t.2).fragment.isBlank = false) isBlank_template
  unnamed := rfl
  bare := fun params name sole => by
    rw [eq_of_soleName? sole]
    rfl

/-- The text of a template, given what is written for its chunks and its substitutions. -/
def templateText (chunk : String → List Char) (code : Expression → List Char) :
    Node (.list .templatePart) → List Char
  | .cons (.chunk raw) rest => chunk raw ++ rest.templateText chunk code
  | .cons (.substitution x) rest =>
      '$' :: '\x7b' :: code x ++ '\x7d' :: rest.templateText chunk code
  | .nil => []

/-- What a stream writes for an expression with nothing in front, at a level of indentation. -/
def textAt (spelling : Spelling) (layout : Layout) (level : Nat) (noIn : Bool) (x : Expression) :
    List Char :=
  ((Stream.fresh level).after spelling layout (x.fragment.steps noIn)).text

variable {spelling : Spelling} {layout : Layout}

theorem tight_fragment {x : Expression} (written : ∀ leaf ∈ x.leaves, Written leaf) (noIn : Bool) :
    Tight (x.fragment.steps noIn) := by
  have code : Code Written [x.fragment] := x.code written
  simpa [stepsAll_single] using code.tight noIn

/-- At no level of indentation, this is the text of the expression without the end of its last
line. -/
theorem text_eq_textAt {x : Expression} (written : ∀ leaf ∈ x.leaves, Written leaf) (noIn : Bool) :
    x.fragment.text spelling layout noIn = textAt spelling layout 0 noIn x ++
      Stream.ending layout (textAt spelling layout 0 noIn x) := by
  have idle : (Stream.start.after spelling layout (x.fragment.steps noIn)).Idle :=
    (tight_fragment written noIn).idle
  have pieces : (Stream.start.after spelling layout (x.fragment.steps noIn)).piecesFrom spelling
      layout [] = [] := by simp [Stream.piecesFrom, idle.semicolon]
  show (Stream.start.after spelling layout (x.fragment.steps noIn)).finish layout = _
  rw [@Stream.finish_eq spelling, pieces, Piece.joined_nil, List.append_nil]
  rfl

/-- A chunk is written as it is, and the brace in front of it closes a substitution. -/
theorem put_chunk (fits : layout.Fits spelling) {s : Stream} (idle : s.Idle) {follows leads : Bool}
    (front : follows = false → s.Fenced) {raw : String}
    (written : (Lexeme.chunk follows leads raw).isBlank = false) :
    s.put layout ((Lexeme.chunk follows leads raw).spell spelling) =
      s.append (Lexeme.chunkText spelling follows leads raw.toList) := by
  have text := writtenText_chunk fits follows leads raw
  rw [← text]
  refine Stream.put_of_fence idle (Lexeme.writtenText_ne_nil written) ?_
  cases follows with
  | false => exact .inl (front rfl)
  | true =>
      rw [text]
      exact .inr ⟨'\x7d', _, rfl, .inr (.inr rfl)⟩

/-- A chunk in front of a substitution leaves the stream behind an opening brace. -/
theorem exists_openingChunk (fits : layout.Fits spelling) {s : Stream} (idle : s.Idle)
    (follows : Bool) (front : follows = false → s.Fenced) (raw : String) : ∃ t : Stream,
      s.stepLexeme spelling layout (.put (.chunk follows true raw)) = t ∧ t.Idle ∧ t.Fenced ∧
        t.level = s.level ∧ t.text = s.text ++ (if follows then ['\x7d'] else []) ++
          (spelling.literalText raw.toList ++ ['$', '\x7b']) := by
  refine ⟨_, put_chunk fits idle front (by simp [Lexeme.isBlank]), idle.append _, ?_, rfl, ?_⟩
  · have opens : Lexeme.chunkText spelling follows true raw.toList =
        ((if follows then ['\x7d'] else []) ++ spelling.literalText raw.toList ++ ['$']) ++
          ['\x7b'] := by simp [Lexeme.chunkText]
    rw [opens]
    exact Stream.fenced_append (.inr (.inl rfl)) _
  · simp [Lexeme.chunkText]

theorem literalText_nil (spelling : Spelling) : spelling.literalText [] = [] := by
  cases spelling with
  | plain => rfl
  | webSafe => exact sanitize_of_isWebSafe (by decide)

theorem writtenText_backtick (spelling : Spelling) (layout : Layout) :
    (Lexeme.verbatim "\x60").writtenText spelling layout = ['\x60'] :=
  Lexeme.writtenText_of_isWebSafe rfl fun _ => by decide

theorem put_backtick {s : Stream} (idle : s.Idle) :
    s.put layout ((Lexeme.verbatim "\x60").spell spelling) = s.append ['\x60'] := by
  have text := writtenText_backtick spelling layout
  rw [← text]
  refine Stream.put_of_fence idle (by simp [text]) (.inr ⟨'\x60', [], text, .inl rfl⟩)

/-- The instructions behind the opening backtick, when some chunks are done. -/
def pieceSteps (noIn : Bool) (done : Nat) (parts : Node (.list .templatePart)) :
    List (Step Lexeme) :=
  stepsAll noIn (TemplatePiece.fragments (parts.fragment.countP TemplatePiece.isText + done) done
    parts.fragment ++ [token "\x60"])

theorem pieceSteps_chunk (noIn : Bool) (done : Nat) (raw : String) :
    pieceSteps noIn done (cons (.chunk raw) .nil) =
      [.put (.chunk (decide (0 < done)) false raw), .put (.verbatim "\x60")] := by
  have last : decide (done + 1 < 1 + done) = false := decide_eq_false (by omega)
  show stepsAll noIn [.lexeme (.chunk (decide (0 < done)) (decide (done + 1 < 1 + done)) raw),
    token "\x60"] = _
  rw [last]
  simp [stepsAll, Fragment.steps, token]

theorem pieceSteps_more (noIn : Bool) (done : Nat) (raw : String) (x : Expression)
    {rest : Node (.list .templatePart)} (tail : rest.Alternates) :
    pieceSteps noIn done (cons (.chunk raw) (cons (.substitution x) rest)) =
      .put (.chunk (decide (0 < done)) true raw) ::
        (x.fragment.steps noIn ++ pieceSteps noIn (done + 1) rest) := by
  have chunks := tail.countP_pos
  have total : rest.fragment.countP TemplatePiece.isText + 1 + done =
    rest.fragment.countP TemplatePiece.isText + (done + 1) := by omega
  have leads : decide (done + 1 < rest.fragment.countP TemplatePiece.isText + (done + 1)) = true :=
    decide_eq_true (by omega)
  have fragments : (cons (.chunk raw) (cons (.substitution x) rest)).fragment =
    .text raw :: .code x.fragment :: rest.fragment := rfl
  rw [pieceSteps, fragments, countP_isText_more, total, TemplatePiece.fragments,
    TemplatePiece.fragments, leads, pieceSteps]
  simp [stepsAll, Fragment.steps]

/-- **After the opening backtick** a stream writes the chunks and the substitutions, and nothing
else up to the closing one. -/
theorem text_after_pieceSteps (fits : layout.Fits spelling) (noIn : Bool)
    {parts : Node (.list .templatePart)} (alternates : parts.Alternates)
    (written : ∀ leaf ∈ parts.leaves, Written leaf) (done : Nat) {s : Stream} (idle : s.Idle)
    (front : done = 0 → s.Fenced) :
    (s.after spelling layout (pieceSteps noIn done parts)).text =
      s.text ++ (if 0 < done then ['\x7d'] else []) ++
        parts.templateText (fun raw => spelling.literalText raw.toList)
          (textAt spelling layout s.level noIn) ++ ['\x60'] := by
  induction alternates generalizing done s with
  | chunk raw =>
      rw [pieceSteps_chunk]
      show ((s.put layout ((Lexeme.chunk (decide (0 < done)) false raw).spell spelling)).put layout
        ((Lexeme.verbatim "\x60").spell spelling)).text = _
      cases blank : (Lexeme.chunk (decide (0 < done)) false raw).isBlank with
      | true =>
          rw [Stream.put_of_blank (Lexeme.writtenText_of_isBlank blank), put_backtick idle]
          simp only [Lexeme.isBlank, Bool.and_eq_true, Bool.not_eq_true', decide_eq_false_iff_not,
            String.isEmpty_iff] at blank
          obtain ⟨⟨first, -⟩, rfl⟩ := blank
          simp [templateText, first, literalText_nil]
      | false =>
          rw [put_chunk fits idle (by simpa using front) blank, put_backtick (idle.append _)]
          simp [templateText, Lexeme.chunkText]
  | @more raw x rest tail ih =>
      obtain ⟨-, hRest⟩ := forall_two written
      obtain ⟨hSubstitution, hTail⟩ := forall_two hRest
      obtain ⟨behind, opens, chunkIdle, fenced, chunkLevel, chunkText⟩ :=
        exists_openingChunk fits idle (decide (0 < done)) (by simpa using front) raw
      have tight : Tight (x.fragment.steps noIn) :=
        tight_fragment (forall_child hSubstitution) noIn
      have code : (behind.after spelling layout (x.fragment.steps noIn)).text =
          behind.text ++ textAt spelling layout behind.level noIn x :=
        tight.text_after chunkIdle fenced
      have level : (behind.after spelling layout (x.fragment.steps noIn)).level = behind.level :=
        levelKept_steps noIn x.fragment spelling layout behind
      have idleBehind : (behind.after spelling layout (x.fragment.steps noIn)).Idle := tight.idle
      rw [pieceSteps_more noIn done raw x tail, Stream.after_cons, Stream.after_append, opens,
        ih hTail (done + 1) idleBehind (absurd · (Nat.succ_ne_zero done)), code, level, chunkLevel,
        chunkText]
      simp [templateText]

/-! ## Scripts -/

/-- The stream behind the opening backtick. -/
theorem exists_openingBacktick (spelling : Spelling) (layout : Layout) (s : Stream) :
    ∃ (t : Stream) (before : List Char),
      s.stepLexeme spelling layout (.put (.verbatim "\x60")) = t ∧ t.Idle ∧ t.Fenced ∧
      t.level = s.level ∧ t.text = before ++ ['\x60'] ∧ s.text <+: before := by
  have text := writtenText_backtick spelling layout
  have written : (Lexeme.verbatim "\x60").writtenText spelling layout ≠ [] := by simp [text]
  obtain ⟨before, longer, ends⟩ := Stream.exists_text_put (s := s) written
  rw [text] at ends
  refine ⟨s.put layout ((Lexeme.verbatim "\x60").spell spelling), before, rfl,
    Stream.idle_put written, ?_, Stream.level_put _, ends, longer⟩
  rw [Stream.put_of_written written, text]
  exact Stream.fenced_append (.inl rfl) []

theorem fits_layout (options : PrintOptions) : options.layout.Fits options.spelling := by
  unfold PrintOptions.spelling PrintOptions.layout
  split
  · exact fun _ => rfl
  · exact nofun

/-- **Template text is written as it is.**  Between the backticks of a template stand its chunks,
sanitized in safe output, and its substitutions, and nothing else.  Each substitution is what a
stream writes for it that has nothing in front.  So it is at every place where the instructions of
the template stand in those of the program, and there is one. -/
theorem print_of_mem_templates {program : Program} {tag : Node (.option .expression)}
    {parts : Node (.list .templatePart)} (member : (tag, parts) ∈ program.templates)
    (alternates : parts.Alternates)
    (named : ∀ role text, Leaf.name role text ∈ parts.leaves → text ≠ "") (options : PrintOptions) :
    (∃ front noIn back, program.fragment.steps false =
      front ++ (template tag parts).fragment.steps noIn ++ back) ∧
    ∀ front noIn back,
      program.fragment.steps false = front ++ (template tag parts).fragment.steps noIn ++ back →
      ∃ before after,
        (Stream.start.after options.spelling options.layout front).text <+: before ∧
        program.print options = before ++ '\x60' :: parts.templateText
          (fun raw => if options.mode = .webSafe then sanitize raw.toList else raw.toList)
          (textAt options.spelling options.layout
            (Stream.start.after options.spelling options.layout front).level noIn) ++
          '\x60' :: after := by
  have written : ∀ leaf ∈ parts.leaves, Written leaf := fun leaf listed =>
    written_of_named fun role text same => named role text (same ▸ listed)
  have within : Within (template tag parts).fragment program.fragment :=
    contains_of_mem_collect placed_templates program (tag, parts) member
  refine ⟨within.exists_steps (isBlank_template tag parts) false, fun front noIn back whole => ?_⟩
  have inner : (template tag parts).fragment.steps noIn =
      stepsAll noIn (writtenAt .call tag).toList ++
        .put (.verbatim "\x60") :: pieceSteps noIn 0 parts := by
    rw [fragment_template]
    simp [Fragment.template, Fragment.steps, stepsAll, stepsAll_append, token, pieceSteps]
  -- the streams behind what stands in front, behind the tag and behind the first backtick
  let s := Stream.start.after options.spelling options.layout front
  let t := s.after options.spelling options.layout (stepsAll noIn (writtenAt .call tag).toList)
  obtain ⟨u, before, opens, idle, fenced, level, text, longer⟩ :=
    exists_openingBacktick options.spelling options.layout t
  have tagLevel : t.level = s.level := levelKept_stepsAll noIn _ _ _ s
  have pieces := text_after_pieceSteps (fits_layout options) noIn alternates written 0 idle
    fun _ => fenced
  have chunks : (fun raw : String => options.spelling.literalText raw.toList) =
      fun raw => if options.mode = .webSafe then sanitize raw.toList else raw.toList := by
    unfold PrintOptions.spelling
    split <;> rfl
  have behind : s.after options.spelling options.layout
      ((template tag parts).fragment.steps noIn) =
        u.after options.spelling options.layout (pieceSteps noIn 0 parts) := by
    rw [inner, Stream.after_append, Stream.after_cons, opens]
  obtain ⟨after, printed⟩ := exists_print_of_steps whole options
  refine ⟨before, after, (Stream.prefix_after _).trans longer, ?_⟩
  rw [printed, behind, pieces, text, level, tagLevel, chunks]
  simp [s]

/-- The expression `function() { b; }`. -/
def functionWithBody : Expression :=
  .functionExpression false false .none (.parameters .nil .none)
    (.functionBody .nil (.cons (.evaluate (.identifier (.usedName "b"))) .nil))

/-- Chunks that end in blank space, around a function. -/
def spacedParts : Node (.list .templatePart) :=
  .cons (.chunk "a ") (.cons (.substitution functionWithBody) (.cons (.chunk "\n") .nil))

/-- A tagged template in a block. -/
def templateInBlock : Program :=
  .script .nil (.cons (.blockStatement (.block (.cons (.evaluate
    (.template (.some (.identifier (.usedName "t"))) spacedParts)) .nil))) .nil)

theorem print_templateInBlock :
    (Node.some (.identifier (.usedName "t")), spacedParts) ∈ templateInBlock.templates ∧
    spacedParts.Alternates ∧
    (∀ role text, Leaf.name role text ∈ spacedParts.leaves → text ≠ "") ∧
    (∃ noIn level before after, templateInBlock.print .pretty = before ++ '\x60' ::
      ("a ".toList ++ '$' :: '\x7b' ::
        textAt PrintOptions.pretty.spelling PrintOptions.pretty.layout level noIn functionWithBody ++
        '\x7d' :: "\n".toList) ++ '\x60' :: after) ∧
    templateInBlock.print .pretty =
      "\x7b\n  t\x60a $\x7bfunction() \x7b\n    b;\n  \x7d\x7d\n\x60;\n\x7d\n".toList := by
  have member :
      (Node.some (.identifier (.usedName "t")), spacedParts) ∈ templateInBlock.templates :=
    List.mem_singleton_self _
  have alternates : spacedParts.Alternates := .more _ _ (.chunk _)
  have named : ∀ role text, Leaf.name role text ∈ spacedParts.leaves → text ≠ "" := by
    intro role text listed
    have same : Leaf.name role text = .name .used "b" := List.mem_singleton.1 listed
    cases same
    decide
  obtain ⟨⟨front, noIn, back, whole⟩, everywhere⟩ :=
    print_of_mem_templates member alternates named .pretty
  obtain ⟨before, after, -, printed⟩ := everywhere front noIn back whole
  have text (code : Expression → List Char) : spacedParts.templateText (fun raw =>
      if PrintOptions.pretty.mode = .webSafe then sanitize raw.toList else raw.toList) code =
      "a ".toList ++ '$' :: '\x7b' :: code functionWithBody ++ '\x7d' :: "\n".toList := by
    simp [spacedParts, templateText, PrintOptions.pretty]
  rw [text] at printed
  exact ⟨member, alternates, named, ⟨noIn, _, before, after, printed⟩, by rfl⟩

end Node

end EcmaScribe
