/-
# EcmaScribe.Proofs.Separation -- tokens are read apart

A stream judges by a character or two on either side whether two tokens may touch.  That is
enough because of what the rules put side by side: where two operators would be read as a longer
one, either the stream parts them or no rule writes them one after the other
(`conflict_of_follower`).  So wherever two tokens touch, a reader that goes for the longest
element takes the first one as it was written.
-/
import EcmaScribe.Proofs.Layout.Gaps
import EcmaScribe.Proofs.Lexical.Spelled
import EcmaScribe.Proofs.Tree.Composed

namespace EcmaScribe

set_option autoImplicit false

open Text Lexical

variable {k : IdentifierClass}

/-! ## The first character of a token -/

theorem starts_of_isName {text : List Char} (h : k.isName text = true) {c : Char}
    (first : text.head? = some c) : k.starts c = true := by
  obtain ⟨rest, rfl⟩ := List.head?_eq_some_iff.1 first
  exact (IdentifierClass.isName_cons h).1

/-- What prolongs an operator starts an operator. -/
theorem Lexeme.Spelled.prolongs {l : Lexeme} {text : List Char} (h : l.Spelled k text) {c : Char}
    (first : text.head? = some c) (prolonging : c ∈ Lexeme.prolonging) : l.prolongs = true := by
  have sign : c ∈ signs := by
    have table : ∀ c ∈ Lexeme.prolonging, c ∈ signs := by decide
    exact table c prolonging
  cases h with
  | word isName =>
      exact absurd (.inl (starts_of_isName isName first)) (not_startsWord (k := k) (.inr (.inr sign)))
  | number isNumeral =>
      obtain ⟨d, rest, rfl, digit | rfl⟩ := isNumeral.head
      · obtain rfl : d = c := by simpa using first
        rw [not_digit_of_sign sign] at digit
        cases digit
      · obtain rfl : '.' = c := by simpa using first
        exact absurd prolonging (by decide)
  | string isString =>
      obtain ⟨d, rest, rfl, isQuote⟩ := isString.head
      obtain rfl : d = c := by simpa using first
      exact absurd isQuote (not_quote_of_sign sign)
  | regExp =>
      obtain rfl : '/' = c := by simpa using first
      exact absurd prolonging (by decide)
  | @punctuator text =>
      simp [Lexeme.prolongs, first, prolonging]

/-- A property starts like a name. -/
theorem Lexeme.Spelled.property {l : Lexeme} {text : List Char} (h : l.Spelled k text) {c : Char}
    (first : text.head? = some c) (property : l.isProperty = true) :
    c.isDigit = false ∧ c ≠ '.' := by
  cases h with
  | word isName =>
      have starts := starts_of_isName isName first
      refine ⟨Bool.eq_false_iff.2 fun digit => ?_, ?_⟩
      · exact not_startsWord (.inl digit) (.inl starts)
      · rintro rfl
        exact not_startsWord (.inr (.inr (by decide))) (.inl starts)
  | number => cases property
  | string _ _ noProperty =>
      rw [property] at noProperty
      cases noProperty
  | regExp => cases property
  | @punctuator text _ h =>
      obtain rfl : text = "target" := by simpa [Lexeme.isProperty] using property
      exact absurd h (by decide)

/-! ## The last character of a token -/

/-- The characters that a stream keeps apart because they would go on with an operator or open
a comment. -/
def conflicts : List (Char × Char) :=
  [('+', '+'), ('-', '-'), ('/', '/'), ('/', '*'), ('<', '!')]

theorem Border.not_conflict {text : List Char} {last next : Char} (h : Border text last next) :
    (last, next) ∉ conflicts := by
  intro conflict
  simp only [conflicts, List.mem_cons, Prod.mk.injEq, List.not_mem_nil, or_false] at conflict
  rcases conflict with ⟨plus, plus'⟩ | ⟨minus, minus'⟩ | ⟨slash, slash'⟩ | ⟨slash, star⟩ | ⟨angle, mark⟩
  · exact h.plus plus plus'
  · exact h.minus minus minus'
  · exact (h.slash slash).1 slash'
  · exact (h.slash slash).2.1 star
  · exact h.angle angle mark

/-- A punctuator that could go on is a point, an operator that waits for its operand, or one
that the stream keeps apart. -/
theorem conflict_of_follower : ∀ text ∈ fixedTexts, ∀ c ∈ followers text.toList,
    text = "." ∧ c = '.' ∨ (Lexeme.verbatim text).isOpen = true ∧ c ∈ Lexeme.prolonging ∨
      ∃ last ∈ text.toList.getLast?, (last, c) ∈ conflicts := by
  have table : ∀ text ∈ fixedTexts, ∀ c ∈ followers text.toList,
      text = "." ∧ c = '.' ∨ (Lexeme.verbatim text).isOpen = true ∧ c ∈ Lexeme.prolonging ∨
        (text.toList.getLast?.any fun last => conflicts.contains (last, c)) = true := by
    decide +kernel
  intro text known c follower
  refine (table text known c follower).imp_right (.imp_right fun conflict => ?_)
  obtain ⟨last, ends, found⟩ := Option.any_eq_true _ _ |>.1 conflict
  exact ⟨last, ends, by simpa using found⟩

theorem isIdentifierPart_getLast_of_isName {text : List Char} (h : k.isName text = true)
    {last : Char} (ends : text.getLast? = some last) : isIdentifierPart last = true := by
  have continues := IdentifierClass.continues_of_isName h last (List.mem_of_getLast? ends)
  exact IdentifierClass.isIdentifierPart_of_continues continues

/-! ## Touching tokens -/

/-- **A token that touches the next one is the longest element at its place.** -/
theorem Lexeme.Spelled.isLongest {x y : Lexeme} {text : List Char} (h : x.Spelled k text)
    (adjoins : x.Adjoins y) {last next : Char} (ends : text.getLast? = some last)
    (border : Border text last next) {rest : List Char} (first : rest.head? = some next)
    (prolongs : next ∈ Lexeme.prolonging → y.prolongs = true)
    (property : y.isProperty = true → next.isDigit = false ∧ next ≠ '.') :
    IsLongest k x.isRegExp text rest := by
  have only {P : Char → Prop} (holds : P next) : ∀ c ∈ rest.head?, P c := by
    intro c member
    rw [first] at member
    cases member
    exact holds
  cases h with
  | word isName =>
      have noPart := border.words (isIdentifierPart_getLast_of_isName isName ends)
      exact isLongest_word (isWord_of_isName isName) (only noPart)
  | number isNumeral =>
      obtain ⟨c, ends', digit⟩ := isNumeral.last
      obtain rfl : c = last := Option.some.inj (ends'.symm.trans ends)
      have noPart := border.words (isIdentifierPart_of_isDigit digit)
      refine isLongest_number isNumeral (only ⟨noPart, fun point digits => ?_⟩)
      have mixed := border.point point
      rw [List.all_eq_true.2 digits] at mixed
      cases mixed
  | string isString => exact isLongest_string isString
  | @regExp pattern flags isPattern isFlags =>
      refine isLongest_regExp (.literal isPattern (nameParts_of_continues isFlags)) (only ?_)
      cases last? : flags.toList.getLast? with
      | none =>
          have slash : last = '/' := by
            rw [List.getLast?_eq_none_iff.1 last?, List.getLast?_cons, List.getLast?_append] at ends
            simpa using ends.symm
          exact (border.slash slash).2.2
      | some flag =>
          have same : last = flag := by
            rw [List.getLast?_cons, List.getLast?_append, List.getLast?_cons, last?] at ends
            simpa using ends.symm
          refine border.words ?_
          rw [same]
          exact IdentifierClass.isIdentifierPart_of_continues
            (isFlags flag (List.mem_of_getLast? last?))
  | @punctuator text known h =>
      refine isLongest_punctuator h (only ⟨fun follower => ?_, fun point => ?_⟩)
      · rcases conflict_of_follower text known next follower with ⟨rfl, point⟩ | ⟨isOpen, prolonging⟩ |
          ⟨last', ends', conflict⟩
        · exact (property (adjoins.property rfl)).2 point
        · have plain := adjoins.plain isOpen
          rw [prolongs prolonging] at plain
          cases plain
        · obtain rfl : last' = last := Option.some.inj (ends'.symm.trans ends)
          exact border.not_conflict conflict
      · obtain rfl : text = "." := String.toList_inj.1 point
        exact (property (adjoins.property rfl)).1

/-! ## Scripts -/

namespace Node

/-- The pieces of a program's script. -/
def pieces (spelling : Spelling) (layout : Layout) (program : Program) : List Piece :=
  Stream.start.piecesFrom spelling layout (program.fragment.steps false)

/-- A script is what its pieces make up, and the end of its last line. -/
theorem render_eq_joined (spelling : Spelling) (layout : Layout) (program : Program) :
    program.render spelling layout = Piece.joined (program.pieces spelling layout) ++
      Stream.ending layout (Piece.joined (program.pieces spelling layout)) :=
  Stream.finish_runFrom (s := .start) (program.fragment.steps false)

/-- The lexemes of the pieces are those of the program. -/
theorem kept_pieces (spelling : Spelling) (layout : Layout) (program : Program) :
    Kept (Lexeme.writtenText spelling layout) (program.fragment.lexemes false)
      ((program.pieces spelling layout).map (·.lexeme)) :=
  Stream.kept_pieces (s := .start) (program.fragment.steps false)

/-- Each gap is the one that a stream leaves after the piece before. -/
theorem isChain_pieces (spelling : Spelling) (layout : Layout) (program : Program) :
    (program.pieces spelling layout).IsChain (Piece.Follows spelling layout) :=
  Stream.isChain_start (program.fragment.steps false)

/-- A piece comes from an admitted leaf or from the rules, and it is what the stream writes. -/
theorem known_of_mem_pieces {admits : Leaf → Prop} {program : Program}
    (admitted : ∀ leaf ∈ program.leaves, admits leaf) (spelling : Spelling) (layout : Layout) :
    ∀ p ∈ program.pieces spelling layout, p.lexeme.Known admits ∧
      p.text = p.lexeme.writtenText spelling layout ∧ p.text ≠ [] := by
  intro p member
  have composed : Fragment.Phrase admits program.fragment := program.composed admitted
  have listed := (kept_pieces spelling layout program).sublist.subset (List.mem_map_of_mem member)
  exact ⟨(composed false).known _ listed, Stream.text_of_mem_pieces _ p member⟩

/-- Every two pieces in a row adjoin as the rules put them. -/
theorem isChain_lexemes_pieces {program : Program}
    (wellFormed : ∀ leaf ∈ program.leaves, leaf.WellFormed k) {layout : Layout}
    (raw : layout.safe = false) :
    ((program.pieces .plain layout).map (·.lexeme)).IsChain Lexeme.Adjoins := by
  have composed : Fragment.Phrase (Leaf.WellFormed k) program.fragment :=
    program.composed wellFormed
  have linked : Linked (program.fragment.lexemes false) :=
    (composed false).keeps fun _ _ admitted written => admitted.isBlank_eq_false written
  refine (kept_pieces .plain layout program).isChain ?_ ?_ ?_
  · -- a closing brace may stand wherever a semicolon may
    intro x y adjoins brace
    refine ⟨fun isOpen => ?_, fun point => ?_⟩
    · cases y with
      | verbatim text =>
          rw [writtenText_eq raw] at brace
          obtain rfl : text = "\x7d" := String.toList_inj.1 brace
          decide
      | _ => rfl
    · cases adjoins.property point
  · rw [Stream.writtenText_semicolon]
    simp
  · have same : (program.fragment.lexemes false).filter
        (fun l => l.writtenText .plain layout ≠ []) =
        writtenLexemes (program.fragment.lexemes false) := by
      refine List.filter_congr fun l _ => ?_
      simp [writtenText_eq_nil_iff raw]
    rw [same]
    exact linked.chain

/-- **No two tokens merge.**  Where two tokens of a readable or compact script touch, the first
is the longest element at its place, whatever is written after the second. -/
theorem isLongest_of_touching {program : Program}
    (wellFormed : ∀ leaf ∈ program.leaves, leaf.WellFormed k) {options : PrintOptions}
    (readable : options.mode ≠ .webSafe) {before after : List Piece} {p q : Piece}
    (neighbours : program.pieces .plain (.ofOptions options) = before ++ p :: q :: after)
    (code : p.lexeme.isTemplateText = false) (nextCode : q.lexeme.isChunk = false)
    (touching : q.gap = []) :
    ∃ rest, program.print options = Piece.joined (before ++ [p]) ++ rest ∧ q.text <+: rest ∧
      IsLongest k p.lexeme.isRegExp p.text rest := by
  have raw : (Layout.ofOptions options).safe = false := rfl
  have printed : program.print options = program.render .plain (.ofOptions options) := by
    unfold print
    cases mode : options.mode with
    | webSafe => exact absurd mode readable
    | _ => rfl
  have member := known_of_mem_pieces wellFormed .plain (.ofOptions options)
  obtain ⟨pKnown, pText, pNonempty⟩ := member p (by simp [neighbours])
  obtain ⟨qKnown, qText, qNonempty⟩ := member q (by simp [neighbours])
  have adjoins : p.lexeme.Adjoins q.lexeme := by
    have chain := isChain_lexemes_pieces wellFormed raw
    rw [neighbours, List.map_append, List.map_cons, List.map_cons,
      List.isChain_append_cons_cons] at chain
    exact chain.2.1
  have follows : p.Follows .plain (.ofOptions options) q := by
    have chain := isChain_pieces .plain (.ofOptions options) program
    rw [neighbours, List.isChain_append_cons_cons] at chain
    exact chain.2.1
  obtain ⟨next, tail, qHead⟩ := List.exists_cons_of_ne_nil qNonempty
  have ends := List.getLast?_eq_some_getLast pNonempty
  have newLine : (Layout.ofOptions options).newLine ≠ [] := by
    show options.newLine.terminator ≠ []
    cases options.newLine <;> simp [NewLine.terminator]
  have border := follows.border newLine touching ends (by rw [qHead]; rfl)
  -- the second token is an element, too, or the delimiter of a template
  have nextFacts : (next ∈ Lexeme.prolonging → q.lexeme.prolongs = true) ∧
      (q.lexeme.isProperty = true → next.isDigit = false ∧ next ≠ '.') := by
    have first : (q.lexeme.writtenText .plain (.ofOptions options)).head? = Option.some next := by
      rw [← qText, qHead]
      rfl
    by_cases template : q.lexeme.isTemplateText = true
    · cases shape : q.lexeme with
      | verbatim text =>
          obtain rfl : text = "\x60" := by simpa [shape, Lexeme.isTemplateText] using template
          rw [shape, writtenText_eq raw] at first
          obtain rfl : '\x60' = next := by simpa [Lexeme.spell] using first
          exact ⟨fun prolonging => absurd prolonging (by decide), fun _ => by decide⟩
      | chunk => simp [shape, Lexeme.isChunk] at nextCode
      | _ => simp [shape, Lexeme.isTemplateText] at template
    · have spelled := qKnown.spelled (by simpa using template) raw
      exact ⟨spelled.prolongs first, spelled.property first⟩
  refine ⟨Piece.joined (q :: after) ++ Stream.ending (.ofOptions options)
    (Piece.joined (program.pieces .plain (.ofOptions options))), ?_, ?_, ?_⟩
  · rw [printed, render_eq_joined, neighbours]
    simp
  · rw [Piece.joined_cons, touching, List.nil_append, List.append_assoc]
    exact List.prefix_append _ _
  · have spelled := pKnown.spelled code raw
    rw [← pText] at spelled
    refine spelled.isLongest adjoins ends border ?_ nextFacts.1 nextFacts.2
    simp [touching, qHead]

/-- A comparison with `!--b`, which would open a comment right after the `<`. -/
def comparisonWithNegation : Program :=
  .script .nil (.cons (.evaluate (.binary (.identifier (.usedName "a")) .lessThan
    (.unary .logicalNot (.update true .decrement (.targetName (.assignedName "b")))))) .nil)

theorem isLongest_comparisonWithNegation :
    (∀ leaf ∈ comparisonWithNegation.leaves, leaf.WellFormed .ofTables) ∧
      ∃ rest, comparisonWithNegation.print .compact = ['a', '<', ' ', '!'] ++ rest ∧
        ['-', '-'] <+: rest ∧ IsLongest .ofTables false ['!'] rest := by
  have wellFormed : ∀ leaf ∈ comparisonWithNegation.leaves, leaf.WellFormed .ofTables := by
    show ∀ leaf ∈ [Leaf.name .used "a", .name .assigned "b"], leaf.WellFormed .ofTables
    have first : IdentifierClass.ofTables.isName "a".toList = true := by decide
    have second : IdentifierClass.ofTables.isName "b".toList = true := by decide
    simp only [List.forall_mem_cons]
    exact ⟨first, second, by simp⟩
  have neighbours : comparisonWithNegation.pieces .plain (.ofOptions .compact) =
      [⟨.name .used "a", [], ['a']⟩, ⟨.verbatim "<", [], ['<']⟩] ++
        ⟨.verbatim "!", [' '], ['!']⟩ :: ⟨.verbatim "--", [], ['-', '-']⟩ ::
          [⟨.name .assigned "b", [], ['b']⟩, .semicolon] := rfl
  exact ⟨wellFormed, isLongest_of_touching wellFormed (by decide) neighbours rfl rfl rfl⟩

end Node

end EcmaScribe
