/-
# EcmaScribe.Proofs.LineBreaks -- line breaks change nothing

Where a grammar ends a statement at a line break, a printer must not break lines at will.  Readable
output breaks a line only after a brace, a semicolon or a colon, and indents the next line as deep
as the blocks and cases that are open; so no break comes after `return` or `yield`, nor in front of
a postfix operator.

`Node.print_eq_laid` says so of every program.  It reads a script as laid lexemes, which no
setting but the mode has a part in: how lines end and how wide an indentation is comes in only when
the lexemes are turned into text.
-/
import EcmaScribe.Proofs.Tree.Code
import EcmaScribe.Proofs.Tree.LineEnds

namespace EcmaScribe

set_option autoImplicit false

open Fragment

/-! ## Modes -/

section Modes

variable {options other : PrintOptions}

theorem Lexeme.writtenText_of_mode (mode : other.mode = options.mode) (l : Lexeme) :
    l.writtenText other.spelling other.layout =
      l.writtenText options.spelling options.layout := by
  rw [PrintOptions.spelling_eq mode]
  by_cases webSafe : options.mode = .webSafe
  · rw [PrintOptions.layout_of_webSafe webSafe, PrintOptions.layout_of_webSafe (mode.trans webSafe)]
  · rw [PrintOptions.layout_of_ne webSafe, PrintOptions.layout_of_ne (mode ▸ webSafe)]
    exact l.writtenText_ofOptions mode _

end Modes

/-- The settings of a mode, with those for readable output as they are by default. -/
def RenderMode.options (mode : RenderMode) : PrintOptions :=
  { PrintOptions.pretty with mode := mode }

/-! ## Text -/

/-- The text of a lexeme, which depends on the mode alone. -/
def Laid.token (mode : RenderMode) (w : Laid) : List Char :=
  w.lexeme.writtenText mode.options.spelling mode.options.layout

/-- The lexeme with the space in front of it, if there is one, but without a line break. -/
def Laid.unbroken (mode : RenderMode) (w : Laid) : List Char :=
  (if w.spacing = .space then [' '] else []) ++ w.token mode

/-- The lexeme with what stands in front of it, be it on a new line. -/
def Laid.text (options : PrintOptions) (w : Laid) : List Char :=
  (if w.spacing = .lineBreak then
    options.newLine.terminator ++ List.replicate (w.depth * options.indentWidth) ' ' else []) ++
    w.unbroken options.mode

theorem Laid.token_eq (options : PrintOptions) (w : Laid) :
    w.lexeme.writtenText options.spelling options.layout = w.token options.mode := by
  have mode : options.mode.options.mode = options.mode := rfl
  exact (w.lexeme.writtenText_of_mode mode).symm

/-- The text of the piece that a laid lexeme is. -/
theorem Laid.text_eq {options : PrintOptions} {w : Laid}
    (safe : options.mode = .webSafe → w.spacing ≠ .lineBreak) :
    w.text options = (w.piece options.spelling options.layout).gap ++
      (w.piece options.spelling options.layout).text := by
  show w.text options = w.spacing.text options.layout w.depth ++ _
  rw [show (w.piece options.spelling options.layout).text = w.token options.mode from
    w.token_eq options]
  unfold Laid.text unbroken
  cases spacing : w.spacing with
  | touching | space => simp [Spacing.text]
  | lineBreak =>
      have mode : options.mode ≠ .webSafe := fun webSafe => safe webSafe spacing
      rw [PrintOptions.layout_of_ne mode]
      simp [Spacing.text, Layout.ofOptions]

namespace Node

/-- The lexemes of a script, each with its spacing and its depth. -/
def laid (options : PrintOptions) (program : Program) : List Laid :=
  Stream.start.laidFrom options.spelling options.layout (program.fragment.steps false)

/-- The text of a script without its line breaks and the indentation after them. -/
def unbroken (options : PrintOptions) (program : Program) : List Char :=
  (program.laid options).flatMap (Laid.unbroken options.mode)

section Options

variable (program : Program) (options : PrintOptions)

theorem pieces_eq_laid :
    Stream.start.piecesFrom options.spelling options.layout (program.fragment.steps false) =
      (program.laid options).map (Laid.piece options.spelling options.layout) :=
  Stream.pieces_eq_map_laid _

theorem token_ne_nil : ∀ w ∈ program.laid options, w.token options.mode ≠ [] := by
  intro w member
  have listed := List.mem_map_of_mem (f := Laid.piece options.spelling options.layout) member
  rw [← pieces_eq_laid] at listed
  obtain ⟨-, nonempty⟩ := Stream.text_of_mem_pieces _ _ listed
  rwa [← w.token_eq options]

theorem spacing_ne_lineBreak (mode : options.mode ≠ .pretty) :
    ∀ w ∈ program.laid options, w.spacing ≠ .lineBreak := by
  have compact : options.layout.compact = true :=
    Bool.of_not_eq_false (mt PrintOptions.compact_layout.1 mode)
  exact Stream.spacing_ne_lineBreak _ (fun _ => ⟨rfl, rfl⟩) compact

/-- What is printed is the laid lexemes, one after another, and the end of the last line. -/
theorem print_eq_flatMap : program.print options =
    (program.laid options).flatMap (Laid.text options) ++
      if options.mode = .pretty ∧ program.laid options ≠ [] then options.newLine.terminator
      else [] := by
  have joined : Piece.joined
      ((program.laid options).map (Laid.piece options.spelling options.layout)) =
        (program.laid options).flatMap (Laid.text options) := by
    rw [Piece.joined, List.flatMap_map]
    refine List.flatMap_congr fun w member => (Laid.text_eq fun webSafe => ?_).symm
    exact spacing_ne_lineBreak program options (by simp [webSafe]) w member
  have empty : (program.laid options).flatMap (Laid.text options) = [] ↔
      program.laid options = [] := by
    refine ⟨fun none => ?_, fun none => by rw [none]; rfl⟩
    rw [List.flatMap_eq_nil_iff] at none
    refine List.eq_nil_iff_forall_not_mem.2 fun w member => ?_
    have written := none w member
    simp only [Laid.text, Laid.unbroken, List.append_eq_nil_iff] at written
    exact token_ne_nil program options w member written.2.2
  have printed : program.print options =
      (program.laid options).flatMap (Laid.text options) ++
        Stream.ending options.layout ((program.laid options).flatMap (Laid.text options)) := by
    rw [print_eq_render, ← joined, ← pieces_eq_laid]
    exact Stream.finish_runFrom (program.fragment.steps false)
  rw [printed, Stream.ending]
  by_cases mode : options.mode = .pretty
  · have readable := PrintOptions.compact_layout.2 mode
    have newLine : options.layout.newLine = options.newLine.terminator := by
      rw [PrintOptions.layout_of_ne (by simp [mode])]
      rfl
    simp [mode, readable, newLine, empty]
  · have compact : options.layout.compact = true :=
      Bool.of_not_eq_false (mt PrintOptions.compact_layout.1 mode)
    simp [mode, compact]

/-- Of the settings, only the mode has a part in what is laid. -/
theorem laid_eq {other : PrintOptions} (mode : other.mode = options.mode) :
    program.laid other = program.laid options := by
  unfold laid
  rw [PrintOptions.spelling_eq mode]
  by_cases webSafe : options.mode = .webSafe
  · rw [PrintOptions.layout_of_webSafe webSafe, PrintOptions.layout_of_webSafe (mode.trans webSafe)]
  · rw [PrintOptions.layout_of_ne webSafe, PrintOptions.layout_of_ne (mode ▸ webSafe)]
    exact Stream.laidFrom_eq (.refl _) mode _

/-- Nothing stands in front of the first lexeme. -/
theorem spacing_head? (mode : options.mode ≠ .webSafe) :
    ∀ w ∈ (program.laid options).head?, w.spacing = .touching := by
  intro w first
  have plain : options.layout.safe = false := by
    rw [PrintOptions.layout_of_ne mode]
    rfl
  have isFirst : w.piece options.spelling options.layout ∈ (Stream.start.piecesFrom options.spelling
      options.layout (program.fragment.steps false)).head? := by
    rw [pieces_eq_laid, List.head?_map, Option.mem_def.1 first]
    rfl
  have noGap : (w.piece options.spelling options.layout).gap = [] :=
    Stream.gap_head?_pieces plain _ rfl _ isFirst
  change w.spacing.text options.layout w.depth = [] at noGap
  cases spacing : w.spacing with
  | touching => rfl
  | space => simp [spacing, Spacing.text] at noGap
  | lineBreak =>
      rw [PrintOptions.layout_of_ne mode, spacing] at noGap
      cases newLine : options.newLine <;>
        simp [Spacing.text, Layout.ofOptions, newLine, NewLine.terminator] at noGap

/-- Output without line breaks does not depend on how lines would be broken. -/
theorem print_eq_of_mode {other : PrintOptions} (mode : other.mode = options.mode)
    (unbroken : options.mode ≠ .pretty) : program.print other = program.print options := by
  have text : (program.laid options).flatMap (Laid.text other) =
      (program.laid options).flatMap (Laid.text options) :=
    List.flatMap_congr fun w member => by
      simp only [Laid.text, if_neg (spacing_ne_lineBreak program options unbroken w member), mode]
  rw [print_eq_flatMap, print_eq_flatMap, laid_eq program options mode, text]
  simp [mode, unbroken]

end Options

/-! ## Depths -/

/-- The statements of a case are one deeper than the case, as those of a block are one deeper than
its braces (`Fragment.nested_block`). -/
theorem nested_switchCase (test : Node .expression) (consequent : Node (.list .statement))
    (depth : Nat) (noIn : Bool) :
    (switchCase test consequent).fragment.nested depth noIn =
      (spaced [token "case", test.fragment]).nested depth noIn ++
        (depth, .verbatim ":") :: nestedLines (depth + 1) noIn consequent.fragment :=
  nested_clause depth noIn _ _

theorem nested_switchDefault (consequent : Node (.list .statement)) (depth : Nat) (noIn : Bool) :
    (switchDefault consequent).fragment.nested depth noIn =
      (token "default").nested depth noIn ++
        (depth, .verbatim ":") :: nestedLines (depth + 1) noIn consequent.fragment :=
  nested_clause depth noIn _ _

/-! ## Postfix operators -/

/-- A postfix update tells of itself. -/
def ownPostfix {c : Category} (n : Node c) : List (Node .simpleTarget × UpdateOperator) :=
  match c, n with
  | .expression, .update false operator operand => [(operand, operator)]
  | _, _ => []

/-- The operands of the postfix operators of a tree, at any depth, with the operators. -/
def postfixes {c : Category} (n : Node c) : List (Node .simpleTarget × UpdateOperator) :=
  n.collect ownPostfix

theorem forall_mem_ownPostfix
    {p : {c : Category} → Node c → Node .simpleTarget × UpdateOperator → Prop}
    (here : ∀ operator operand, p (update false operator operand) (operand, operator))
    {c : Category} (n : Node c) : ∀ x ∈ n.ownPostfix, p n x := by
  intro x member
  unfold ownPostfix at member
  split at member
  · obtain rfl := List.mem_singleton.1 member
    exact here _ _
  · cases member

theorem isBlank_operator (operator : UpdateOperator) :
    (Lexeme.verbatim operator.text).isBlank = false := by
  cases operator <;> decide

theorem placed_postfixes :
    Placed ownPostfix fun x => (update false x.2 x.1).fragment where
  here := forall_mem_ownPostfix
    (p := fun {c} n x => c.Contains (update false x.2 x.1).fragment n.fragment) fun _ _ => .here
  written := forall_mem_ownPostfix
    (p := fun _ x => (update false x.2 x.1).fragment.isBlank = false) fun operator operand => by
      have sign : Within (token operator.text) (update false operator operand).fragment :=
        .seq (by simp) .here
      exact sign.isBlank (by simpa [token, isBlank] using isBlank_operator operator)
  unnamed := rfl
  bare := fun params name sole => by
    rw [eq_of_soleName? sole]
    rfl

/-- **No line is broken in front of a postfix operator.**  It comes right after the last lexeme of
its operand. -/
theorem exists_laid_of_mem_postfixes {program : Program}
    (named : ∀ role text, Leaf.name role text ∈ program.leaves → text ≠ "")
    {operand : Node .simpleTarget} {operator : UpdateOperator}
    (member : (operand, operator) ∈ program.postfixes) {options : PrintOptions}
    (readable : options.mode = .pretty) :
    ∃ noIn before p w after, program.laid options = before ++ p :: w :: after ∧
      (operand.fragment.lexemes noIn).getLast? = Option.some p.lexeme ∧
      w.lexeme = .verbatim operator.text ∧ w.spacing ≠ .lineBreak := by
  have compact : options.layout.compact = false := PrintOptions.compact_layout.2 readable
  have leaves : ∀ x ∈ program.postfixes, ∀ leaf ∈ x.1.leaves, Written leaf :=
    forall_mem_collect (p := fun x : Node .simpleTarget × UpdateOperator =>
        ∀ leaf ∈ x.1.leaves, Written leaf)
      (fun n hn x member => forall_mem_ownPostfix
        (p := fun n x => (∀ leaf ∈ n.leaves, Written leaf) → ∀ leaf ∈ x.1.leaves, Written leaf)
        (fun _ _ whole => forall_child whole) n x member hn) program
      fun leaf listed => written_of_named fun role text same => named role text (same ▸ listed)
  have within : Within (update false operator operand).fragment program.fragment :=
    contains_of_mem_collect placed_postfixes program (operand, operator) member
  obtain ⟨front, noIn, back, whole⟩ :=
    within.exists_steps (placed_postfixes.written_of_mem program _ member) false
  -- the operand is code, so it ends in a lexeme
  have code : Code Written [operand.fragment] := operand.code (leaves _ member)
  have tight : Tight (operand.fragment.steps noIn) := by
    simpa [stepsAll_single] using code.tight noIn
  obtain ⟨inner, l, ends, written⟩ := tight.last
  have steps : program.fragment.steps false =
      (front ++ inner) ++ .put l :: .put (.verbatim operator.text) :: back := by
    have own : (update false operator operand).fragment.steps noIn =
        operand.fragment.steps noIn ++ [.put (.verbatim operator.text)] := by
      show (Fragment.seq [operand.fragment, token operator.text]).steps noIn = _
      simp [Fragment.steps, stepsAll, token]
    rw [whole, own, ends]
    simp
  have settled : (Stream.start.after options.spelling options.layout (front ++ inner)).Settled :=
    Stream.settled_after compact Stream.settled_start _
  obtain ⟨p, w, after, listed, last, sign, unbroken⟩ :=
    Stream.exists_laid_pair options.spelling options.layout settled written (isBlank_operator operator)
      back
  refine ⟨noIn, Stream.start.laidFrom options.spelling options.layout (front ++ inner), p, w, after,
    ?_, ?_, sign, unbroken⟩
  · rw [laid, steps, Stream.laidFrom_append compact Stream.settled_start, listed]
  · rw [Fragment.lexemes, ends, last]
    simp [Step.written?]

/-! ## Scripts -/

/-- **Readable layout is safe, and settings concern layout only.**  A script is laid lexemes, and
each is written as some text.  What is laid depends on the mode alone, so two scripts in one mode
differ in their line breaks and the indentation after them.

Readable output breaks lines after braces, semicolons and colons only; the next line is indented
as deep as the lexeme on it is nested, and at the end no indentation is left open.  In front of a
postfix operator there is no line break if all names are written.  The other modes break no lines at
all, so they do not depend on the settings for them. -/
theorem print_eq_laid (program : Program) (options : PrintOptions) :
    (program.print options = (program.laid options).flatMap (Laid.text options) ++
        if options.mode = .pretty ∧ program.laid options ≠ [] then options.newLine.terminator
        else []) ∧
    (∀ w ∈ program.laid options, w.token options.mode ≠ []) ∧
    (∀ other : PrintOptions, other.mode = options.mode →
      program.laid other = program.laid options ∧
        program.unbroken other = program.unbroken options) ∧
    (options.mode = .pretty →
      (∀ w ∈ (program.laid options).head?, w.spacing = .touching) ∧
      ((program.laid options).IsChain fun p w =>
        w.spacing = .lineBreak → p.lexeme ∈ lineEnds) ∧
      (program.laid options).map (fun w => (w.depth, w.lexeme)) =
        (program.fragment.nested 0 false).filter (!·.2.isBlank) ∧
      (Stream.start.after options.spelling options.layout
        (program.fragment.steps false)).level = 0 ∧
      ((∀ role text, Leaf.name role text ∈ program.leaves → text ≠ "") →
        ∀ operand operator, (operand, operator) ∈ program.postfixes →
          ∃ noIn before p w after, program.laid options = before ++ p :: w :: after ∧
            (operand.fragment.lexemes noIn).getLast? = Option.some p.lexeme ∧
            w.lexeme = .verbatim operator.text ∧ w.spacing ≠ .lineBreak)) ∧
    (options.mode ≠ .pretty →
      (∀ w ∈ program.laid options, w.spacing ≠ .lineBreak) ∧
      ∀ other : PrintOptions, other.mode = options.mode →
        program.print other = program.print options) := by
  refine ⟨print_eq_flatMap program options, token_ne_nil program options, fun other mode => ?_,
    fun readable => ?_, fun dense => ?_⟩
  · have same := laid_eq program options mode
    exact ⟨same, by rw [unbroken, unbroken, same, mode]⟩
  · have compact : options.layout.compact = false := PrintOptions.compact_layout.2 readable
    have calm : Calm program.fragment := program.breaksWell
    refine ⟨spacing_head? program options (by simp [readable]), ?_, ?_, ?_,
      fun named operand operator member => exists_laid_of_mem_postfixes named member readable⟩
    · have chain : ((Option.none : Option Laid).toList ++ program.laid options).IsChain
          Stream.MayFollow :=
        Stream.isChain_laidFrom compact _ Stream.settled_start (calm false false) nofun nofun
      exact chain
    · have depths := lexemesFrom_steps 0 false [] program.fragment
      rw [List.append_nil, lexemesFrom, List.append_nil] at depths
      rw [← depths]
      exact Stream.map_laidFrom compact Stream.settled_start (program.fragment.steps false)
    · exact levelKept_steps false program.fragment _ _ _
  · exact ⟨spacing_ne_lineBreak program options dense, fun other mode =>
      print_eq_of_mode program options mode dense⟩

/-- A counter in the only case of a `switch`. -/
def countedCase : Program :=
  .script .nil (.cons (.switch (.identifier (.usedName "a")) (.cons (.switchCase (.boolean true)
    (.cons (.evaluate (.update false .increment (.targetName (.assignedName "a"))))
      (.cons (.breakTo Option.none) .nil))) .nil)) .nil)

theorem laid_countedCase :
    let options : PrintOptions := ⟨.pretty, 4, .carriageReturnLineFeed⟩
    (∀ role text, Leaf.name role text ∈ countedCase.leaves → text ≠ "") ∧
    (targetName (assignedName "a"), UpdateOperator.increment) ∈ countedCase.postfixes ∧
    (∃ before p w after, countedCase.laid options = before ++ p :: w :: after ∧
      p.lexeme = .name .assigned "a" ∧ w.lexeme = .verbatim "++" ∧ w.spacing ≠ .lineBreak) ∧
    countedCase.unbroken .pretty = countedCase.unbroken options ∧
    countedCase.unbroken options = "switch (a) \x7bcase true:a++;break;\x7d".toList ∧
    countedCase.print options =
      ("switch (a) \x7b\x0d\n    case true:\x0d\n        a++;\x0d\n        break;\x0d\n" ++
        "\x7d\x0d\n").toList := by
  intro options
  have named : ∀ role text, Leaf.name role text ∈ countedCase.leaves → text ≠ "" := by
    intro role text listed
    have leaves : countedCase.leaves = [.name .used "a", .name .assigned "a"] := rfl
    rw [leaves] at listed
    simp only [List.mem_cons, List.not_mem_nil, or_false, Leaf.name.injEq] at listed
    rcases listed with ⟨-, rfl⟩ | ⟨-, rfl⟩ <;> decide
  have member : (targetName (assignedName "a"), UpdateOperator.increment) ∈
      countedCase.postfixes := List.mem_singleton_self _
  obtain ⟨-, -, same, readable, -⟩ := print_eq_laid countedCase options
  obtain ⟨-, -, -, -, unbroken⟩ := readable rfl
  obtain ⟨noIn, before, p, w, after, listed, operand, sign, apart⟩ := unbroken named _ _ member
  have own : p.lexeme = .name .assigned "a" := (Option.some.inj operand).symm
  exact ⟨named, member, ⟨before, p, w, after, listed, own, sign, apart⟩, (same .pretty rfl).2,
    by decide +kernel, by decide +kernel⟩

end Node

end EcmaScribe
