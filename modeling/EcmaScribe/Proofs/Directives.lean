/-
# EcmaScribe.Proofs.Directives -- what a reader takes for directives

A directive is a string that makes up a statement of its own, in front of all other statements of
a script, a module or the body of a function.  A tree has directives apart from statements, but
in a script nothing tells them apart: the reader goes by the tokens.

Every directive of a tree is found again.  An expression statement that is nothing but a string
is found as well if no other statement is written before it, since no parentheses are put around
it; `prologue_of_mem_bodies` says that these are all that is found, wherever in the script the
body stands.  So the directives of a body are read back exactly if its first statement is no such
string.
-/
import EcmaScribe.Proofs.Lexical.Prologue
import EcmaScribe.Proofs.Separation
import EcmaScribe.Proofs.Tree.Collect
import EcmaScribe.Proofs.Tree.Opening
import EcmaScribe.Proofs.Tree.Within

namespace EcmaScribe

set_option autoImplicit false

open Text Lexical

/-! ## Source text -/

/-- No variable that is read has a name with a quote in front. -/
def Leaf.Recognizable : Leaf → Prop
  | name role text => role = .used → Unquoted text.toList
  | directive _ | key _ | number _ | string _ | specifier _ | regExp .. | template _ => True

/-! ## Items in a row -/

/-- How an item of a body starts: it is a string that the reader takes for a directive, or it
ends the prologue. -/
inductive Item (textOf : Lexeme → List Char) (f : Fragment) : Option Lexeme → Prop
  | lone {l : Lexeme} (isString : IsString (textOf l)) (written : f.isBlank = false)
      (lexemes : ∀ b, f.lexemes b = [l, .verbatim ";"]) : Item textOf f (some l)
  | other (written : f.isBlank = false)
      (ends : ∀ b rest, ReadAs textOf (f.lexemes b ++ rest) []) : Item textOf f none

/-- The values in front of the first gap. -/
def beforeGap {α : Type} : List (Option α) → List α
  | some a :: rest => a :: beforeGap rest
  | none :: _ | [] => []

theorem beforeGap_some_append {α : Type} (l : List α) (rest : List (Option α)) :
    beforeGap (l.map some ++ rest) = l ++ beforeGap rest := by
  induction l with
  | nil => rfl
  | cons a l ih => exact congrArg (a :: ·) ih

theorem beforeGap_map {α β : Type} (f : α → β) (l : List (Option α)) :
    beforeGap (l.map (Option.map f)) = (beforeGap l).map f := by
  induction l with
  | nil => rfl
  | cons a l ih =>
      cases a with
      | none => rfl
      | some a => exact congrArg (f a :: ·) ih

section Items

variable {textOf : Lexeme → List Char} {fs : List Fragment} {strings : List (Option Lexeme)}

theorem isBlank_of_items (items : List.Forall₂ (Item textOf) fs strings) :
    ∀ f ∈ fs, f.isBlank = false := by
  induction items with
  | nil => simp
  | cons item _ ih =>
      refine List.forall_mem_cons.2 ⟨?_, ih⟩
      cases item <;> assumption

/-- **The prologue of items in a row** is what stands in front of the first item that ends it. -/
theorem readAs_items (semicolon : textOf (.verbatim ";") = [';'])
    (items : List.Forall₂ (Item textOf) fs strings) {closing : List Lexeme}
    (ends : ReadAs textOf closing []) (b : Bool) :
    ReadAs textOf (fs.flatMap (Fragment.lexemes b) ++ closing)
      ((beforeGap strings).map textOf) := by
  induction items with
  | nil => exact ends
  | cons item _ ih =>
      rw [List.flatMap_cons, List.append_assoc]
      cases item with
      | lone isString _ lexemes =>
          rw [lexemes]
          exact readAs_string semicolon isString ih
      | other _ ends => exact ends b _

end Items

/-- Items are written one after another. -/
theorem lexemes_writtenLines {fs : List Fragment} (written : ∀ f ∈ fs, f.isBlank = false)
    (b : Bool) : (Fragment.lines fs).lexemes b = fs.flatMap (Fragment.lexemes b) := by
  have kept : fs.filter (!·.isBlank) = fs :=
    List.filter_eq_self.2 fun f member => by simp [written f member]
  rw [Fragment.lexemes_lines, kept]

/-- So they are between the braces of a block. -/
theorem lexemes_writtenBlock {fs : List Fragment} (written : ∀ f ∈ fs, f.isBlank = false)
    (b : Bool) : (Fragment.block fs).lexemes b =
      .verbatim "\x7b" :: (fs.flatMap (Fragment.lexemes false) ++ [.verbatim "\x7d"]) := by
  rw [Fragment.lexemes_block, ← lexemes_writtenLines written]
  split
  · rename_i blank
    have empty : fs = [] := by
      cases fs with
      | nil => rfl
      | cons f fs => simp [Fragment.allBlank, written f List.mem_cons_self] at blank
    subst empty
    simp [Fragment.lexemes_lines]
  · rfl

variable {spelling : Spelling} {layout : Layout}

theorem Fragment.Headed.item {f : Fragment} (h : f.Headed) :
    Item (Lexeme.writtenText spelling layout) f none :=
  .other h.written fun b rest => by
    obtain ⟨l, more, lexemes, plain⟩ := h.head b
    rw [lexemes]
    exact readAs_of_startsNoString plain _

/-! ## Statements -/

namespace Node

open Fragment

/-- The string that an item is nothing but. -/
def loneString? {c : Category} : Node c → Option String
  | evaluate (string value) => Option.some value
  | itemStatement (evaluate (string value)) => Option.some value
  | _ => Option.none

/-- A statement ends the prologue with any other expression. -/
theorem readAs_evaluate {expression : Expression} (noString : ∀ value, expression ≠ .string value)
    (h : ∀ leaf ∈ expression.leaves, leaf.Recognizable) (b : Bool) (rest : List Lexeme) :
    ReadAs (Lexeme.writtenText spelling layout) ((evaluate expression).fragment.lexemes b ++ rest)
      [] := by
  have opens : Opened expression.fragment := opened expression
  show ReadAs _ ((statement (parenIf expression.fragment.leading.isStatementHazard
    expression.fragment)).lexemes b ++ rest) []
  generalize expression.fragment.leading.isStatementHazard = hazard
  obtain ⟨l, more, lexemes, opening⟩ := opens.parenIf hazard b
  rw [lexemes_statement, lexemes, List.append_assoc, List.cons_append]
  rcases opening with plain | ⟨rfl, single⟩ | ⟨text, later, rfl, further⟩
  · exact readAs_of_startsNoString plain _
  · cases hazard with
    | true => cases single
    | false =>
        rcases lexeme_of_fragment single with plain | ⟨value, rfl⟩ | ⟨name, rfl, rfl⟩
        · exact readAs_of_startsNoString plain _
        · exact absurd rfl (noString value)
        · have unquoted : Unquoted name.toList :=
            h (.name .used name) (List.mem_singleton_self _) rfl
          -- A name may be blank; then the semicolon comes first.
          exact readAs_cons (unquoted_name .used unquoted).not_isString fun _ =>
            readAs_of_startsNoString (l := .verbatim ";") (by decide) _
  · exact readAs_of_goesOn further _

/-- A string with nothing around it. -/
theorem item_string (value : String) : Item (Lexeme.writtenText spelling layout)
    (evaluate (.string value)).fragment (Option.some (.string value)) := by
  have shape : (evaluate (.string value)).fragment = statement (.lexeme (.string value)) := rfl
  rw [shape]
  refine .lone (isString_string value) (isBlank_statement _) fun b => ?_
  rw [lexemes_statement, lexemes_lexeme]
  rfl

/-- The lexeme of the string that an item is nothing but. -/
abbrev loneLexeme? {c : Category} (n : Node c) : Option Lexeme := n.loneString?.map .string

theorem item_statement (n : Statement) (h : ∀ leaf ∈ n.leaves, leaf.Recognizable) :
    Item (Lexeme.writtenText spelling layout) n.fragment n.loneLexeme? := by
  cases n with
  | evaluate expression =>
      have other (noString : ∀ value, expression ≠ .string value) :
          Item (Lexeme.writtenText spelling layout) (evaluate expression).fragment Option.none :=
        .other (isBlank_statement _) (readAs_evaluate noString (forall_child h))
      cases expression with
      | string value => exact item_string value
      | _ => exact other fun value same => by cases same
  | labeled label body =>
      have shape : (labeled label body).fragment =
          keyed (.lexeme (.name .label label)) body.fragment := rfl
      rw [shape]
      refine .other (isBlank_keyed _ _) fun b rest => ?_
      rw [lexemes_keyed, lexemes_lexeme]
      exact readAs_of_goesOn (by decide) _
  | blockStatement body =>
      cases body
      exact (headed_block _).item
  | breakTo | continueTo | returnValue | throw =>
      exact (headed_keywordStatement (by decide) _).item
  | debugger => exact (headed_token (by decide) : Headed (token "debugger")).statement.item
  | doWhile => exact (headed_keywordStatement (by decide) _).item
  | empty => exact headed_semicolon.item
  | forIn | forOf | forLoop | switch | switchWithDefault | tryCatch | tryFinally | whileLoop
  | withObject => exact (headed_keyword (by decide) _).item
  | ifElse test consequent alternate =>
      cases alternate with
      | none => exact ((headed_keyword (by decide) _).marked _).item
      | some alternate => exact (headed_keyword (by decide) _).item
  | declare declaration =>
      cases declaration with
      | variableDeclaration kind declarators =>
          cases kind <;> exact (headed_keywordStatement (by decide) _).item
  | functionStatement declaration =>
      cases declaration
      exact (headed_function _ _ _ _ _).item
  | classStatement declaration =>
      cases declaration with
      | classDeclaration name heritage elements =>
          cases heritage <;> exact (headed_class _ _ _).item

theorem item_moduleItem (n : Node .moduleItem) (h : ∀ leaf ∈ n.leaves, leaf.Recognizable) :
    Item (Lexeme.writtenText spelling layout) n.fragment n.loneLexeme? := by
  cases n with
  | itemStatement inner =>
      have same : (itemStatement inner).loneLexeme? = inner.loneLexeme? := by
        cases inner with
        | evaluate expression => cases expression <;> rfl
        | _ => rfl
      rw [same]
      exact item_statement inner (forall_child h)
  | importNames | importNamespace | exportAll | exportFrom | exportLocals =>
      exact (headed_keywordStatement (by decide) _).item
  | exported | exportDefault => exact (headed_keyword (by decide) _).item

/-! ## Bodies -/

/-- The raw texts of directives in a row. -/
def raws {c : Category} : Node c → List String
  | directive raw => [raw]
  | cons head tail => head.raws ++ tail.raws
  | _ => []

/-- For each of the items in a row the string that it is nothing but. -/
def loneStrings {c : Category} : Node c → List (Option String)
  | cons head tail => head.loneString? :: tail.loneStrings
  | _ => []

theorem items_directives (directives : Node (.list .directive))
    (h : ∀ raw ∈ directives.raws, IsStringBody (directiveDelimiter raw.toList) raw.toList) :
    List.Forall₂ (Item (Lexeme.writtenText spelling layout)) directives.fragment
      ((directives.raws.map Lexeme.directive).map Option.some) := by
  induction directives using list_induction with
  | nil => exact .nil
  | cons head tail ih =>
      obtain ⟨first, others⟩ := List.forall_mem_append.1 h
      cases head with
      | directive raw =>
          have isBody : IsStringBody (directiveDelimiter raw.toList) raw.toList :=
            first raw (List.mem_singleton_self _)
          have shape : (directive raw).fragment = statement (.lexeme (.directive raw)) := rfl
          refine .cons ?_ (ih others)
          rw [shape]
          refine .lone (isString_directive isBody) (isBlank_statement _) fun b => ?_
          rw [lexemes_statement, lexemes_lexeme]
          rfl

/-- The lexemes of the strings that items are nothing but. -/
abbrev loneLexemes {c : Category} (items : Node (.list c)) : List (Option Lexeme) :=
  items.loneStrings.map (Option.map .string)

theorem items_statements (statements : Node (.list .statement))
    (h : ∀ leaf ∈ statements.leaves, leaf.Recognizable) :
    List.Forall₂ (Item (Lexeme.writtenText spelling layout)) statements.fragment
      statements.loneLexemes := by
  induction statements using list_induction with
  | nil => exact .nil
  | cons head tail ih =>
      obtain ⟨first, others⟩ := forall_two h
      exact .cons (item_statement head first) (ih others)

theorem items_moduleItems (items : Node (.list .moduleItem))
    (h : ∀ leaf ∈ items.leaves, leaf.Recognizable) :
    List.Forall₂ (Item (Lexeme.writtenText spelling layout)) items.fragment
      items.loneLexemes := by
  induction items using list_induction with
  | nil => exact .nil
  | cons head tail ih =>
      obtain ⟨first, others⟩ := forall_two h
      exact .cons (item_moduleItem head first) (ih others)

end Node

/-- A script, a module or the body of a function. -/
structure Body where
  /-- What is written for it. -/
  place : Fragment
  /-- What is written in front of its first item: the brace that opens the body of a function. -/
  opening : List Lexeme
  /-- The raw texts of its directives. -/
  directives : List String
  /-- The values of the strings that its first statements are nothing but. -/
  strings : List String
  /-- The leaves of its statements. -/
  leaves : List Leaf

namespace Body

/-- Its directives are well formed, and its statements read no variable whose name has a quote in
front. -/
structure Recognizable (body : Body) : Prop where
  directives : ∀ raw ∈ body.directives, IsStringBody (directiveDelimiter raw.toList) raw.toList
  names : ∀ leaf ∈ body.leaves, leaf.Recognizable

/-- The directives as they are written. -/
def directiveTexts (spelling : Spelling) (layout : Layout) (body : Body) : List (List Char) :=
  body.directives.map fun raw => (Lexeme.directive raw).writtenText spelling layout

def stringTexts (spelling : Spelling) (layout : Layout) (body : Body) : List (List Char) :=
  body.strings.map fun value => (Lexeme.string value).writtenText spelling layout

/-- What a reader takes for directives: the directives of the body and the strings behind them. -/
def found (spelling : Spelling) (layout : Layout) (body : Body) : List (List Char) :=
  body.directiveTexts spelling layout ++ body.stringTexts spelling layout

/-- That is what a reader finds, whatever comes after the body.  Nothing comes after a script or
a module. -/
def Read (spelling : Spelling) (layout : Layout) (body : Body) : Prop :=
  ∃ inside, body.place.lexemes false = body.opening ++ inside ∧
    ∀ after, (body.opening = [] → after = []) →
      ReadAs (Lexeme.writtenText spelling layout) (inside ++ after) (body.found spelling layout)

/-- The body stands in the script between these lexemes. -/
def StandsBetween (program : Program) (body : Body) (before after : List Lexeme) : Prop :=
  program.fragment.lexemes false = before ++ body.place.lexemes false ++ after

/-- The texts of a script from the first item of a body on, if the body stands behind the lexemes
`before`.  In front of the texts stands what the layout has kept of those lexemes, and the brace
that opens the body. -/
def Starts (spelling : Spelling) (layout : Layout) (program : Program) (body : Body)
    (before : List Lexeme) (texts : List (List Char)) : Prop :=
  ∃ front, Kept (Lexeme.writtenText spelling layout) before front ∧
    (program.pieces spelling layout).map (·.text) =
      (front ++ body.opening).map (Lexeme.writtenText spelling layout) ++ texts

end Body

namespace Node

open Fragment

/-- The script or module itself. -/
def root : Program → Body
  | n@(script directives statements) =>
      ⟨n.fragment, [], directives.raws, beforeGap statements.loneStrings, statements.leaves⟩
  | n@(moduleRoot directives items) =>
      ⟨n.fragment, [], directives.raws, beforeGap items.loneStrings, items.leaves⟩

/-- The body of a function that a node is. -/
def functionBodies {c : Category} : Node c → List Body
  | n@(functionBody directives statements) =>
      [⟨n.fragment, [.verbatim "\x7b"], directives.raws, beforeGap statements.loneStrings,
        statements.leaves⟩]
  | _ => []

/-- Only the bodies of functions tell one. -/
theorem forall_mem_functionBodies {p : {c : Category} → Node c → Body → Prop}
    (h : ∀ directives statements, p (functionBody directives statements)
      ⟨(functionBody directives statements).fragment, [.verbatim "\x7b"], directives.raws,
        beforeGap statements.loneStrings, statements.leaves⟩)
    {c : Category} (n : Node c) : ∀ body ∈ n.functionBodies, p n body := by
  intro body member
  cases n with
  | functionBody directives statements => exact List.mem_singleton.1 member ▸ h directives statements
  | _ => cases member

/-- The bodies of a program: the script or module, and the bodies of all functions in it. -/
def bodies (program : Program) : List Body := program.root :: program.collect functionBodies

/-! ## Reading a body -/

/-- The items of a body: its directives, then the others. -/
theorem exists_bodyItems {c : Category} {directives : Node (.list .directive)}
    {items : Node (.list c)} {written : List Fragment} {place : Fragment} {opening : List Lexeme}
    (h : Body.Recognizable
      ⟨place, opening, directives.raws, beforeGap items.loneStrings, items.leaves⟩)
    (isItems : (∀ leaf ∈ items.leaves, leaf.Recognizable) →
      List.Forall₂ (Item (Lexeme.writtenText spelling layout)) written items.loneLexemes) :
    ∃ strings, List.Forall₂ (Item (Lexeme.writtenText spelling layout))
        (directives.fragment ++ written) strings ∧
      (beforeGap strings).map (Lexeme.writtenText spelling layout) =
        Body.found spelling layout
          ⟨place, opening, directives.raws, beforeGap items.loneStrings, items.leaves⟩ := by
  refine ⟨_, List.rel_append (items_directives directives h.directives) (isItems h.names), ?_⟩
  rw [beforeGap_some_append, beforeGap_map, List.map_append, List.map_map, List.map_map]
  rfl

section Layouts

variable {body : Body} {fs : List Fragment} {strings : List (Option Lexeme)}
  (items : List.Forall₂ (Item (Lexeme.writtenText spelling layout)) fs strings)
  (found : (beforeGap strings).map (Lexeme.writtenText spelling layout) =
    body.found spelling layout)

include items found

/-- Items on lines of their own. -/
theorem read_lines (place : body.place = .lines fs) (opening : body.opening = []) :
    body.Read spelling layout := by
  unfold Body.Read
  rw [place, opening, lexemes_writtenLines (isBlank_of_items items)]
  refine ⟨_, rfl, fun after none => ?_⟩
  rw [none rfl, ← found]
  exact readAs_items Stream.writtenText_semicolon items readAs_nil false

/-- Items in braces. -/
theorem read_block (place : body.place = Fragment.block fs)
    (opening : body.opening = [.verbatim "\x7b"]) : body.Read spelling layout := by
  unfold Body.Read
  rw [place, opening, lexemes_writtenBlock (isBlank_of_items items)]
  refine ⟨fs.flatMap (Fragment.lexemes false) ++ [.verbatim "\x7d"], rfl, fun after _ => ?_⟩
  rw [List.append_assoc, ← found]
  exact readAs_items Stream.writtenText_semicolon items
    (readAs_of_startsNoString (by decide) after) false

end Layouts

theorem read_root (spelling : Spelling) (layout : Layout) {program : Program}
    (h : program.root.Recognizable) : program.root.Read spelling layout := by
  cases program with
  | script directives statements =>
      obtain ⟨strings, items, found⟩ := exists_bodyItems h (items_statements statements)
      exact read_lines items found rfl rfl
  | moduleRoot directives moduleItems =>
      obtain ⟨strings, items, found⟩ := exists_bodyItems h (items_moduleItems moduleItems)
      exact read_lines items found rfl rfl

theorem read_of_mem_collect (spelling : Spelling) (layout : Layout) (program : Program) :
    ∀ body ∈ program.collect functionBodies, body.Recognizable → body.Read spelling layout := by
  refine forall_mem_collect_own
    (p := fun body : Body => body.Recognizable → body.Read spelling layout)
    (forall_mem_functionBodies
      (p := fun _ (body : Body) => body.Recognizable → body.Read spelling layout) ?_) program
  intro directives statements h
  obtain ⟨strings, items, found⟩ := exists_bodyItems h (items_statements statements)
  exact read_block items found rfl rfl

/-! ## Bodies in a script -/

/-- The bodies of functions stand in the script where their fragments do. -/
theorem placed_functionBodies : Placed functionBodies Body.place where
  here := forall_mem_functionBodies (p := fun {c} n body => c.Contains body.place n.fragment)
    fun _ _ => .here
  written := forall_mem_functionBodies (p := fun _ body => body.place.isBlank = false)
    fun _ _ => (headed_block _).written
  unnamed := rfl
  bare := fun params name sole => by
    rw [eq_of_soleName? sole]
    rfl

theorem opening_of_mem_collect (program : Program) : ∀ body ∈ program.collect functionBodies,
    body.opening = [.verbatim "\x7b"] :=
  forall_mem_collect_own (forall_mem_functionBodies
    (p := fun _ body => body.opening = [.verbatim "\x7b"]) fun _ _ => rfl) program

/-- Braces protect what is in the body of a function, so it is written alike in every context. -/
theorem lexemes_of_mem_collect (program : Program) : ∀ body ∈ program.collect functionBodies,
    ∀ b, body.place.lexemes b = body.place.lexemes false := by
  refine forall_mem_collect_own (forall_mem_functionBodies
    (p := fun _ body => ∀ b, body.place.lexemes b = body.place.lexemes false)
    fun directives statements b => ?_) program
  show (Fragment.block (directives.fragment ++ statements.fragment)).lexemes b =
    (Fragment.block (directives.fragment ++ statements.fragment)).lexemes false
  rw [lexemes_block, lexemes_block]

/-- Each body stands somewhere in the script. -/
theorem exists_standsBetween (program : Program) :
    ∀ body ∈ program.bodies, ∃ before after, body.StandsBetween program before after := by
  intro body member
  rcases List.mem_cons.1 member with rfl | nested
  · have place : program.root.place = program.fragment := by cases program <;> rfl
    exact ⟨[], [], by simp [Body.StandsBetween, place]⟩
  · have within : Within body.place program.fragment :=
      contains_of_mem_collect placed_functionBodies program body nested
    obtain ⟨before, noIn, after, whole⟩ :=
      within.exists_lexemes (placed_functionBodies.written_of_mem program body nested) false
    rw [lexemes_of_mem_collect program body nested noIn] at whole
    exact ⟨before, after, whole⟩

/-- The texts of a script are what is written for the lexemes of its pieces. -/
theorem texts_pieces (spelling : Spelling) (layout : Layout) (program : Program) :
    (program.pieces spelling layout).map (·.text) =
      ((program.pieces spelling layout).map (·.lexeme)).map
        (Lexeme.writtenText spelling layout) := by
  rw [List.map_map]
  exact List.map_congr_left fun p listed =>
    (Stream.text_of_mem_pieces (program.fragment.steps false) p listed).1

/-- A script is read from its first text on. -/
theorem exists_starts_root (spelling : Spelling) (layout : Layout) {program : Program}
    (h : program.root.Recognizable) {before after : List Lexeme}
    (place : program.root.StandsBetween program before after) :
    ∃ texts, program.root.Starts spelling layout program before texts ∧
      ∀ strings, Prologue texts strings ↔ strings = program.root.found spelling layout := by
  obtain ⟨whole, opening⟩ : program.root.place = program.fragment ∧ program.root.opening = [] := by
    cases program <;> exact ⟨rfl, rfl⟩
  obtain ⟨inside, lexemes, read⟩ := read_root spelling layout h
  rw [whole, opening, List.nil_append] at lexemes
  -- nothing stands around the script
  obtain ⟨rfl, rfl⟩ : before = [] ∧ after = [] := by
    have lengths := congrArg List.length place
    rw [whole] at lengths
    simp only [List.length_append] at lengths
    constructor <;> apply List.eq_nil_of_length_eq_zero <;> omega
  refine ⟨_, ⟨[], .nil, by simp [opening]; rfl⟩, ?_⟩
  rw [texts_pieces]
  have kept := kept_pieces spelling layout program
  rw [lexemes] at kept
  exact read [] (fun _ => rfl) _ (by simpa using kept)

/-- The body of a function is read from behind its brace on. -/
theorem exists_starts_functionBody (spelling : Spelling) (layout : Layout) {program : Program}
    {body : Body} (h : body.Recognizable) (member : body ∈ program.collect functionBodies)
    {before after : List Lexeme}
    (place : body.StandsBetween program before after) :
    ∃ texts, body.Starts spelling layout program before texts ∧
      ∀ strings, Prologue texts strings ↔ strings = body.found spelling layout := by
  have opening := opening_of_mem_collect program body member
  obtain ⟨inside, lexemes, read⟩ := read_of_mem_collect spelling layout program body member h
  have cut : program.fragment.lexemes false =
      before ++ .verbatim "\x7b" :: (inside ++ after) := by
    rw [place, lexemes, opening]
    simp
  have kept := kept_pieces spelling layout program
  rw [cut] at kept
  obtain ⟨front, back, pieces, left, right⟩ := kept.exists_append
    (by simp [writtenText_openingBrace]) (by simp) (by simp [writtenText_openingBrace])
  refine ⟨back.map (Lexeme.writtenText spelling layout), ⟨front, left, ?_⟩, ?_⟩
  · rw [texts_pieces, pieces, opening]
    simp
  · exact read after (by simp [opening]) back right

/-- **Directives and lone strings are all that a reader takes for directives**, in every body of
a program, wherever it stands, and in every spelling and layout.  So a body keeps its directives
exactly if its first statement is not a string alone. -/
theorem prologue_of_mem_bodies (spelling : Spelling) (layout : Layout) {program : Program}
    {body : Body} (member : body ∈ program.bodies) (h : body.Recognizable) :
    (∃ before after, body.StandsBetween program before after) ∧
    ∀ before after, body.StandsBetween program before after →
      ∃ texts, body.Starts spelling layout program before texts ∧
        (∀ strings, Prologue texts strings ↔
          strings = body.directiveTexts spelling layout ++ body.stringTexts spelling layout) ∧
        (Prologue texts (body.directiveTexts spelling layout) ↔ body.strings = []) := by
  refine ⟨exists_standsBetween program body member, fun before after place => ?_⟩
  have starts : ∃ texts, body.Starts spelling layout program before texts ∧
      ∀ strings, Prologue texts strings ↔ strings = body.found spelling layout := by
    rcases List.mem_cons.1 member with rfl | nested
    · exact exists_starts_root spelling layout h place
    · exact exists_starts_functionBody spelling layout h nested place
  obtain ⟨texts, starts, read⟩ := starts
  refine ⟨texts, starts, read, (read _).trans ?_⟩
  rw [Body.found, List.self_eq_append_right, Body.stringTexts, List.map_eq_nil_iff]

/-- A function that is strict by its directive, in a script that calls a method of a string
first. -/
def strictFunction : Program :=
  .script .nil
    (.cons (.evaluate (.call
      (.subject (.staticMember (.subject (.string "use strict")) "trim")) .nil))
    (.cons (.functionStatement (.functionDeclaration false false (.boundName "f")
      (.parameters .nil .none)
      (.functionBody (.cons (.directive "use strict") .nil) .nil)))
    .nil))

/-- Neither body has a string alone for its first statement, so both keep their directives, also
where the semicolon of the only one is left out. -/
theorem prologue_strictFunction :
    (∀ body ∈ strictFunction.bodies, body.Recognizable) ∧
    strictFunction.bodies.map Body.directives = [[], ["use strict"]] ∧
    ∀ body ∈ strictFunction.bodies, ∃ before texts,
      body.Starts .webSafe .webSafe strictFunction before texts ∧
      Prologue texts (body.directiveTexts .webSafe .webSafe) := by
  have directive : IsStringBody '\x22' "use strict".toList :=
    (denotes_literalChars (.inr rfl) "use strict".toList).isBody
  have names : ∀ leaf ∈ strictFunction.root.leaves, leaf.Recognizable := by
    show ∀ leaf ∈ [Leaf.name .member "trim", .string "use strict", .name .bound "f",
      .directive "use strict"], leaf.Recognizable
    simp only [List.forall_mem_cons]
    exact ⟨nofun, trivial, nofun, trivial, by simp⟩
  have recognizable : ∀ body ∈ strictFunction.bodies, body.Recognizable :=
    List.forall_mem_cons.2 ⟨⟨List.forall_mem_nil _, names⟩,
      List.forall_mem_singleton.2 ⟨List.forall_mem_singleton.2 directive, List.forall_mem_nil _⟩⟩
  have noStrings : ∀ body ∈ strictFunction.bodies, body.strings = [] :=
    List.forall_mem_cons.2 ⟨rfl, List.forall_mem_singleton.2 rfl⟩
  refine ⟨recognizable, rfl, fun body member => ?_⟩
  obtain ⟨⟨before, after, place⟩, everywhere⟩ :=
    prologue_of_mem_bodies .webSafe .webSafe member (recognizable body member)
  obtain ⟨texts, starts, -, kept⟩ := everywhere before after place
  exact ⟨before, texts, starts, kept.2 (noStrings body member)⟩

/-- The script of the directive `use strict`, and that of the string. -/
def strict : Program := .script (.cons (.directive "use strict") .nil) .nil

def strictByAccident : Program := .script .nil (.cons (.evaluate (.string "use strict")) .nil)

/-- Both are written by the same instructions, so in every mode they are the same text, and the
string is taken for the directive. -/
theorem not_kept_strictByAccident :
    (∀ options, strictByAccident.print options = strict.print options) ∧
    strictByAccident.root.directives = [] ∧
    ∃ texts, strictByAccident.root.Starts .plain (.ofOptions .pretty) strictByAccident [] texts ∧
      Prologue texts ["\x22use strict\x22".toList] ∧ ¬ Prologue texts [] := by
  have same (spelling : Spelling) : strictByAccident.fragment.tokens spelling false =
      strict.fragment.tokens spelling false := by
    cases spelling <;> rfl
  have recognizable : strictByAccident.root.Recognizable :=
    ⟨List.forall_mem_nil _, List.forall_mem_singleton.2 trivial⟩
  have place : strictByAccident.root.StandsBetween strictByAccident [] [] := by
    simp [Body.StandsBetween, strictByAccident, root]
  obtain ⟨texts, starts, read⟩ := exists_starts_root .plain (.ofOptions .pretty) recognizable place
  refine ⟨fun options => ?_, rfl, texts, starts, ?_, ?_⟩
  · simp only [print, render, Fragment.text, same]
  · exact (read _).2 (by decide +kernel)
  · exact fun none => absurd ((read _).1 none) (by decide +kernel)

end Node

end EcmaScribe
