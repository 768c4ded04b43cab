/-
# EcmaScribe.Proofs.Lexical.Prologue -- where a reader looks for directives

A reader takes a string for a directive if it makes up a statement of its own and nothing but
such strings is written before it (`Prologue`).  It stops at anything else: at a text that is no
string, or at a string that goes on.

Not every lexeme is written: blank ones are not, and compact output leaves out the semicolon in
front of a closing brace, where a reader puts it back.  `ReadAs` says what a reader finds in
whatever a layout has kept of some lexemes.

No spelling turns a name, a number or a fixed text into a string: an escape starts with a
backslash, never with a quote.
-/
import EcmaScribe.Proofs.Fragment.Opening
import EcmaScribe.Proofs.Layout.Pieces
import EcmaScribe.Proofs.Text.StringValue

namespace EcmaScribe

set_option autoImplicit false

open Text Lexical

/-! ## The reader -/

/-- Whether a statement may end in front of the texts: at its semicolon, or where a reader puts
one. -/
def endsStatement (texts : List (List Char)) : Bool :=
  texts.head?.all fun text => text = [';'] || text = ['\x7d']

/-- The strings that a reader of texts takes for directives. -/
inductive Prologue : List (List Char) → List (List Char) → Prop
  | directive {text : List Char} {texts found : List (List Char)} (isString : IsString text)
      (more : Prologue texts found) : Prologue (text :: [';'] :: texts) (text :: found)
  /-- No semicolon is left to be read. -/
  | last {text : List Char} {texts : List (List Char)} (isString : IsString text)
      (ends : texts.head?.all (· = ['\x7d']) = true) : Prologue (text :: texts) [text]
  | done {texts : List (List Char)} (other : ∀ text rest, texts = text :: rest →
      endsStatement rest = true → ¬ IsString text) : Prologue texts []

variable {text : List Char} {texts found : List (List Char)}

theorem prologue_semicolon (isString : IsString text) :
    Prologue (text :: [';'] :: texts) found ↔
      ∃ others, found = text :: others ∧ Prologue texts others := by
  constructor
  · intro h
    cases h with
    | directive _ more => exact ⟨_, rfl, more⟩
    | last _ ends => simp at ends
    | done other => exact absurd isString (other text _ rfl (by simp [endsStatement]))
  · rintro ⟨others, rfl, more⟩
    exact .directive isString more

theorem prologue_brace (isString : IsString text) :
    Prologue (text :: ['\x7d'] :: texts) found ↔ found = [text] := by
  constructor
  · intro h
    cases h with
    | last => rfl
    | done other => exact absurd isString (other text _ rfl (by simp [endsStatement]))
  · rintro rfl
    exact .last isString (by simp)

/-- A reader stops at anything but a string that makes up a statement. -/
theorem prologue_other (other : ∀ text rest, texts = text :: rest → endsStatement rest = true →
    ¬ IsString text) : Prologue texts found ↔ found = [] := by
  constructor
  · intro h
    cases h with
    | directive isString => exact absurd isString (other _ _ rfl (by simp [endsStatement]))
    | @last text texts isString ends =>
        refine absurd isString (other text texts rfl ?_)
        cases texts <;> simp_all [endsStatement]
    | done => rfl
  · rintro rfl
    exact .done other

/-- Text that starts with no quote. -/
def Unquoted (text : List Char) : Prop := ∀ quote, IsQuote quote → text.head? ≠ some quote

theorem Unquoted.not_isString (h : Unquoted text) : ¬ IsString text := by
  intro isString
  obtain ⟨quote, tail, rfl, isQuote⟩ := isString.head
  exact h quote isQuote rfl

theorem unquoted_brace : Unquoted ['\x7d'] := by
  rintro quote (rfl | rfl) <;> decide

/-! ## What is kept of lexemes -/

section ReadAs

variable {textOf : Lexeme → List Char} {l : Lexeme} {all kept : List Lexeme}

/-- In what is kept of the lexemes a reader finds exactly the given directives. -/
def ReadAs (textOf : Lexeme → List Char) (all : List Lexeme) (found : List (List Char)) : Prop :=
  ∀ kept, Kept textOf all kept → ∀ others, Prologue (kept.map textOf) others ↔ others = found

theorem readAs_nil : ReadAs textOf [] [] := by
  intro kept h others
  cases h
  exact prologue_other nofun

/-- A lexeme that is no string ends the prologue. -/
theorem readAs_cons (noString : ¬ IsString (textOf l))
    (blank : textOf l = [] → ReadAs textOf all []) : ReadAs textOf (l :: all) [] := by
  intro kept h
  cases h with
  | blank none h => exact blank none _ h
  | keep =>
      refine fun others => prologue_other fun text rest same _ => ?_
      exact (List.cons.inj same).1 ▸ noString
  | drop brace =>
      refine fun others => prologue_other fun text rest same _ => ?_
      rw [← (List.cons.inj same).1, brace]
      exact unquoted_brace.not_isString

/-- A lexeme that is written stands in its place, unless it is a semicolon. -/
theorem Kept.exists_cons (written : textOf l ≠ []) (noSemicolon : l ≠ .verbatim ";")
    (h : Kept textOf (l :: all) kept) : ∃ rest, kept = l :: rest ∧ Kept textOf all rest := by
  cases h with
  | blank none => exact absurd none written
  | keep _ h => exact ⟨_, rfl, h⟩
  | drop => exact absurd rfl noSemicolon

/-- In front of such a lexeme a sequence and what is kept of it are cut alike, but for a closing
brace, which may take a semicolon away. -/
theorem Kept.exists_append {before : List Lexeme} (written : textOf l ≠ [])
    (noSemicolon : l ≠ .verbatim ";") (noBrace : textOf l ≠ ['\x7d'])
    (h : Kept textOf (before ++ l :: all) kept) :
    ∃ front back, kept = front ++ l :: back ∧ Kept textOf before front ∧ Kept textOf all back := by
  generalize whole : before ++ l :: all = rest at h
  induction h generalizing before with
  | nil => simp at whole
  | blank blank h ih =>
      cases before with
      | nil =>
          obtain ⟨rfl, -⟩ := List.cons.inj whole
          exact absurd blank written
      | cons first before =>
          obtain ⟨rfl, others⟩ := List.cons.inj whole
          obtain ⟨front, back, rfl, left, right⟩ := ih others
          exact ⟨front, back, rfl, .blank blank left, right⟩
  | keep nonblank h ih =>
      cases before with
      | nil =>
          obtain ⟨rfl, rfl⟩ := List.cons.inj whole
          exact ⟨[], _, rfl, .nil, h⟩
      | cons first before =>
          obtain ⟨rfl, others⟩ := List.cons.inj whole
          obtain ⟨front, back, rfl, left, right⟩ := ih others
          exact ⟨first :: front, back, rfl, .keep nonblank left, right⟩
  | drop brace h ih =>
      cases before with
      | nil => exact absurd (List.cons.inj whole).1 noSemicolon
      | cons first before =>
          obtain ⟨rfl, others⟩ := List.cons.inj whole
          obtain ⟨front, back, same, left, right⟩ := ih others
          cases front with
          | nil =>
              obtain ⟨rfl, -⟩ := List.cons.inj same
              exact absurd brace noBrace
          | cons second front =>
              obtain ⟨rfl, rfl⟩ := List.cons.inj same
              exact ⟨_, back, rfl, .drop brace left, right⟩

/-- A string that goes on ends the prologue. -/
theorem readAs_second {second : Lexeme} (written : textOf second ≠ [])
    (noString : ¬ IsString (textOf second)) (noSemicolon : second ≠ .verbatim ";")
    (further : textOf second ≠ [';'] ∧ textOf second ≠ ['\x7d']) (all : List Lexeme) :
    ReadAs textOf (l :: second :: all) [] := by
  intro kept h
  cases h with
  | blank _ h => exact readAs_cons noString (fun none => absurd none written) _ h
  | keep _ h =>
      obtain ⟨rest, rfl, -⟩ := h.exists_cons written noSemicolon
      refine fun others => prologue_other fun text rest same ends => ?_
      rw [← (List.cons.inj same).2] at ends
      simp [endsStatement, further] at ends
  | drop brace h =>
      obtain ⟨rest, same, -⟩ := h.exists_cons written noSemicolon
      exact absurd ((List.cons.inj same).1 ▸ brace) further.2

/-- **A string with a semicolon** is a directive in front of those that are found behind it, also
where the semicolon has been left out. -/
theorem readAs_string (semicolon : textOf (.verbatim ";") = [';']) (isString : IsString (textOf l))
    {found : List (List Char)} (more : ReadAs textOf all found) :
    ReadAs textOf (l :: .verbatim ";" :: all) (textOf l :: found) := by
  have written : textOf l ≠ [] := by
    obtain ⟨c, tail, same, -⟩ := isString.head
    simp [same]
  have noSemicolon : l ≠ .verbatim ";" := by
    rintro rfl
    rw [semicolon] at isString
    obtain ⟨c, tail, same, rfl | rfl⟩ := isString.head <;> simp at same
  intro kept h others
  obtain ⟨rest, rfl, behind⟩ := h.exists_cons written noSemicolon
  cases behind with
  | blank none => simp [semicolon] at none
  | keep _ behind =>
      rw [List.map_cons, List.map_cons, semicolon, prologue_semicolon isString]
      simp only [more _ behind]
      exact ⟨fun ⟨_, whole, rest⟩ => rest ▸ whole, fun whole => ⟨_, whole, rfl⟩⟩
  | drop isBrace behind =>
      have none : found = [] := by
        refine ((more _ behind []).1 (.done fun text rest same _ => ?_)).symm
        rw [← (List.cons.inj same).1, isBrace]
        exact unquoted_brace.not_isString
      rw [List.map_cons, List.map_cons, isBrace, prologue_brace isString, none]

end ReadAs

/-! ## What is written for lexemes -/

section Written

variable {spelling : Spelling} {layout : Layout} {l : Lexeme} {t u : List Char}

/-- No escape puts a quote in front of a text. -/
theorem Text.Respelled.unquoted (h : Respelled t u) (unquoted : Unquoted t) : Unquoted u := by
  intro quote isQuote
  have fixed : IsFixed quote := by rcases isQuote with rfl | rfl <;> decide
  exact (h.head?_eq_iff fixed).not.2 (unquoted quote isQuote)

/-- What respelling keeps is kept where the text of a lexeme is written. -/
theorem Lexeme.writtenText_keeps {P : List Char → Prop} (keeps : ∀ t u, Respelled t u → P t → P u)
    (spelled : l.spell spelling = .text t) (h : P t) : P (l.writtenText spelling layout) := by
  unfold writtenText
  rw [spelled]
  show P (if layout.safe then sanitize t else t)
  split
  · exact sanitize_keeps keeps h
  · exact h

theorem writtenText_openingBrace :
    (Lexeme.verbatim "\x7b").writtenText spelling layout = ['\x7b'] := by
  show (if layout.safe then sanitize ['\x7b'] else ['\x7b']) = ['\x7b']
  split
  · decide
  · rfl

theorem isString_string (value : String) :
    IsString ((Lexeme.string value).writtenText spelling layout) := by
  refine Lexeme.writtenText_keeps (fun _ _ respelled => respelled.isString) rfl ?_
  cases spelling with
  | plain => exact isString_stringLiteral _
  | webSafe =>
      exact sanitize_keeps (fun _ _ respelled => respelled.isString) (isString_stringLiteral _)

theorem isString_directive {raw : String}
    (isBody : IsStringBody (directiveDelimiter raw.toList) raw.toList) :
    IsString ((Lexeme.directive raw).writtenText spelling layout) :=
  Lexeme.writtenText_keeps (fun _ _ respelled => respelled.isString) rfl
    (.quoted (directiveDelimiter_cases _) (isStringBody_literalText spelling isBody))

/-- A name is written without a quote in front, if it has none. -/
theorem unquoted_name (role : NameRole) {name : String} (unquoted : Unquoted name.toList) :
    Unquoted ((Lexeme.name role name).writtenText spelling layout) := by
  refine Lexeme.writtenText_keeps (fun _ _ respelled => respelled.unquoted) rfl ?_
  split
  · cases spelling with
    | plain => exact unquoted
    | webSafe =>
        show Unquoted (sanitize (replaceAll (singleChar isAstral) escapeCodePoint name.toList))
        refine sanitize_keeps (fun _ _ respelled => respelled.unquoted) ?_
        generalize name.toList = text at unquoted
        cases text with
        | nil =>
            intro quote _
            simp
        | cons c rest =>
            intro quote isQuote
            cases astral : isAstral c with
            | true =>
                rw [replaceAll_of_some (m := ⟨[c], []⟩) (by simp [singleChar, astral])]
                rcases isQuote with rfl | rfl <;> simp [escapeCodePoint]
            | false =>
                rw [replaceAll_of_none (by simp [singleChar, astral])]
                simpa using unquoted quote isQuote
  · exact unquoted

/-- What starts with something other than a quote is written like that. -/
theorem Lexeme.written_of_startsNoString (h : l.startsNoString = true) :
    l.writtenText spelling layout ≠ [] ∧ Unquoted (l.writtenText spelling layout) := by
  have keeps : ∀ t u, Respelled t u → t ≠ [] ∧ Unquoted t → u ≠ [] ∧ Unquoted u :=
    fun t u respelled ⟨nonempty, unquoted⟩ =>
      ⟨fun none => nonempty (none ▸ respelled).eq_nil, respelled.unquoted unquoted⟩
  cases l with
  | verbatim text =>
      refine writtenText_keeps keeps rfl ⟨fun none => ?_, fun quote isQuote first => ?_⟩
      · simp [startsNoString, none] at h
      · simp only [startsNoString, first, Option.any_some] at h
        rcases isQuote with rfl | rfl <;> cases h
  | number value =>
      obtain ⟨c, rest, written, plain⟩ := value.literal_head (P := fun c => ¬ IsQuote c)
        (by decide) (by decide) layout.compact
      have literal : (Lexeme.number value).writtenText spelling layout = c :: rest := written
      rw [literal]
      refine ⟨nofun, fun quote isQuote first => plain ?_⟩
      rwa [Option.some.inj first]
  | regExp pattern flags =>
      refine writtenText_keeps keeps rfl ⟨nofun, fun quote isQuote first => ?_⟩
      rcases isQuote with rfl | rfl <;> cases first
  | _ => cases h

/-- A lexeme that starts with no quote ends the prologue. -/
theorem readAs_of_startsNoString (h : l.startsNoString = true) (all : List Lexeme) :
    ReadAs (Lexeme.writtenText spelling layout) (l :: all) [] := by
  obtain ⟨written, unquoted⟩ := Lexeme.written_of_startsNoString h
  exact readAs_cons unquoted.not_isString fun none => absurd none written

/-- Fixed text that goes on with a statement makes the first lexeme end the prologue. -/
theorem readAs_of_goesOn {text : String} (further : goesOn text = true) (all : List Lexeme) :
    ReadAs (Lexeme.writtenText spelling layout) (l :: .verbatim text :: all) [] := by
  simp only [goesOn, Bool.and_eq_true, bne_iff_ne, ne_eq] at further
  obtain ⟨⟨starts, noSemicolon⟩, noBrace⟩ := further
  obtain ⟨written, unquoted⟩ := Lexeme.written_of_startsNoString starts
  have other {c : Char} (noBackslash : c ≠ '\\') (differs : text.toList ≠ [c]) :
      (Lexeme.verbatim text).writtenText spelling layout ≠ [c] :=
    Lexeme.writtenText_keeps (P := (· ≠ [c]))
      (fun _ _ respelled kept same => kept ((same ▸ respelled).eq_singleton noBackslash)) rfl
      differs
  refine readAs_second written unquoted.not_isString (fun same => ?_) ⟨?_, ?_⟩ all
  · exact noSemicolon (Lexeme.verbatim.inj same)
  · exact other (by decide) fun same => noSemicolon (String.toList_inj.1 same)
  · exact other (by decide) fun same => noBrace (String.toList_inj.1 same)

end Written

end EcmaScribe
