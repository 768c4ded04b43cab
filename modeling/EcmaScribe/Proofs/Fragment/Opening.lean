/-
# EcmaScribe.Proofs.Fragment.Opening -- the first two lexemes of a fragment

A reader takes a string with a semicolon after it for a directive, so it matters which fragments
may open like that.  Most start with a word, a bracket or an operator (`Headed`).  An expression
may also start with a string or a name; then either that lexeme is all of it, or what comes next
is a punctuator or a keyword that ends no statement (`Opened`).

Only what stands on the left decides: each phrase that puts something behind a fragment leaves
its opening alone.
-/
import EcmaScribe.Proofs.Fragment.Leading

namespace EcmaScribe

set_option autoImplicit false

/-- Whether the lexeme is spelled with something other than a quote in front, at a glance. -/
def Lexeme.startsNoString : Lexeme → Bool
  | verbatim text => text.toList.head?.any fun c => c != '\x27' && c != '\x22'
  | number _ | regExp .. => true
  | name .. | string _ | quoted _ | chunk .. | directive _ => false

theorem Lexeme.isBlank_of_startsNoString {l : Lexeme} (h : l.startsNoString = true) :
    l.isBlank = false := by
  cases l with
  | verbatim text =>
      rw [isBlank, Bool.eq_false_iff, ne_eq, String.isEmpty_iff]
      rintro rfl
      cases h
  | number | regExp => rfl
  | _ => cases h

/-- Whether fixed text goes on with a statement that has been started: it is no semicolon, and no
brace in front of which one may be left out. -/
def goesOn (text : String) : Bool :=
  (Lexeme.verbatim text).startsNoString && text != ";" && text != "\x7d"

namespace Fragment

variable {f g : Fragment} {text : String}

/-! ## Fragments that start no string -/

/-- A fragment that is written and starts with no string. -/
structure Headed (f : Fragment) : Prop where
  written : f.isBlank = false
  head : ∀ b, ∃ l rest, f.lexemes b = l :: rest ∧ l.startsNoString = true

theorem headed_lexeme {l : Lexeme} (h : l.startsNoString = true) : Headed (lexeme l) where
  written := by simpa [isBlank] using Lexeme.isBlank_of_startsNoString h
  head := fun b => ⟨l, [], lexemes_lexeme b l, h⟩

theorem headed_token (h : (Lexeme.verbatim text).startsNoString = true) : Headed (token text) :=
  headed_lexeme h

theorem headed_paren (f : Fragment) : Headed (paren f) where
  written := by simp [isBlank]
  head := fun b => ⟨.verbatim "(", _, lexemes_paren b f, by decide⟩

theorem headed_bracket (f : Fragment) : Headed (bracket f) where
  written := by simp [isBlank]
  head := fun b => ⟨.verbatim "[", _, lexemes_bracket b f, by decide⟩

theorem headed_brace (f : Fragment) : Headed (brace f) where
  written := by simp [isBlank]
  head := fun b => ⟨.verbatim "\x7b", _, lexemes_brace b f, by decide⟩

theorem headed_semicolon : Headed semicolon where
  written := by simp [isBlank]
  head := fun b => ⟨.verbatim ";", _, lexemes_semicolon b, by decide⟩

theorem headed_block (children : List Fragment) : Headed (block children) := by
  unfold block braceLines
  split <;> exact headed_brace _

theorem Headed.marked (h : Headed f) (mark : Mark) : Headed (marked mark f) where
  written := by simpa [isBlank] using h.written
  head := fun b => by simpa using h.head b

/-- The first of the children in a row is the head. -/
theorem Headed.seq (h : Headed f) (rest : List Fragment) : Headed (seq (f :: rest)) where
  written := isBlank_seq h.written rest
  head := fun b => by
    obtain ⟨l, more, lexemes, plain⟩ := h.head b
    exact ⟨l, more ++ rest.flatMap (Fragment.lexemes b), by simp [lexemes], plain⟩

theorem Headed.spaced (h : Headed f) (rest : List Fragment) : Headed (spaced (f :: rest)) :=
  h.seq _

theorem Headed.statement (h : Headed f) : Headed (statement f) := h.seq _

theorem headed_keyword (h : (Lexeme.verbatim text).startsNoString = true) (rest : List Fragment) :
    Headed (Fragment.spaced (token text :: rest)) := (headed_token h).spaced rest

theorem headed_keywordStatement (h : (Lexeme.verbatim text).startsNoString = true)
    (rest : List Fragment) : Headed (Fragment.statement (Fragment.spaced (token text :: rest))) :=
  (headed_keyword h rest).statement

theorem headed_function (isAsync isGenerator : Bool) (name : Option Fragment)
    (params body : Fragment) : Headed (function isAsync isGenerator name params body) := by
  cases isAsync <;> exact (headed_token (by decide)).seq _

theorem headed_class (name heritage : Option Fragment) (elements : List Fragment) :
    Headed (class_ name heritage elements) := headed_keyword (by decide) _

/-! ## Fragments that are written, however they start -/

theorem isBlank_statement (f : Fragment) : (Fragment.statement f).isBlank = false := by
  simp [Fragment.statement, isBlank, allBlank]

theorem isBlank_keyed (name value : Fragment) : (keyed name value).isBlank = false := by
  simp [keyed, isBlank, allBlank, token, Lexeme.isBlank]

theorem lexemes_keyed (b : Bool) (name value : Fragment) :
    (keyed name value).lexemes b = name.lexemes b ++ .verbatim ":" :: value.lexemes b := by
  simp [keyed]

/-! ## Fragments that may start a statement -/

/-- A fragment that starts with no string, is a single lexeme, or goes on with fixed text. -/
def Opened (f : Fragment) : Prop :=
  ∀ b, ∃ l rest, f.lexemes b = l :: rest ∧
    (l.startsNoString = true ∨ (rest = [] ∧ f = .lexeme l) ∨
      ∃ text more, rest = .verbatim text :: more ∧ goesOn text = true)

theorem Headed.opened (h : Headed f) : Opened f := fun b => by
  obtain ⟨l, rest, lexemes, plain⟩ := h.head b
  exact ⟨l, rest, lexemes, .inl plain⟩

theorem opened_lexeme (l : Lexeme) : Opened (.lexeme l) := fun b =>
  ⟨l, [], lexemes_lexeme b l, .inr (.inl ⟨rfl, rfl⟩)⟩

/-- Fixed text behind a fragment. -/
theorem Opened.followed (h : Opened f) (text : String) (further : goesOn text = true)
    (rest : Bool → List Lexeme)
    (lexemes : ∀ b, g.lexemes b = f.lexemes b ++ .verbatim text :: rest b) : Opened g := fun b => by
  obtain ⟨l, more, first, opening⟩ := h b
  refine ⟨l, more ++ .verbatim text :: rest b, by rw [lexemes, first, List.cons_append], ?_⟩
  rcases opening with plain | ⟨rfl, -⟩ | ⟨next, later, rfl, onward⟩
  · exact .inl plain
  · exact .inr (.inr ⟨text, rest b, rfl, further⟩)
  · exact .inr (.inr ⟨next, later ++ .verbatim text :: rest b, rfl, onward⟩)

theorem Opened.spaced (h : Opened f) (further : goesOn text = true) (rest : List Fragment) :
    Opened (spaced (f :: token text :: rest)) :=
  h.followed text further (fun b => rest.flatMap (lexemes b)) fun b => by simp

theorem Opened.seq (h : Opened f) (further : goesOn text = true) (rest : List Fragment) :
    Opened (seq (f :: token text :: rest)) :=
  h.followed text further (fun b => rest.flatMap (lexemes b)) fun b => by simp

theorem Opened.called (h : Opened f) (arguments : Fragment) :
    Opened (Fragment.seq [f, paren arguments]) :=
  h.followed "(" (by decide) (fun _ => arguments.lexemes false ++ [.verbatim ")"])
    fun b => by simp

theorem Opened.indexed (h : Opened f) (key : Fragment) : Opened (Fragment.seq [f, bracket key]) :=
  h.followed "[" (by decide) (fun _ => key.lexemes false ++ [.verbatim "]"])
    fun b => by simp

theorem Opened.parenIf (h : Opened f) (condition : Bool) : Opened (parenIf condition f) := by
  cases condition with
  | true => exact (headed_paren f).opened
  | false => exact h

theorem Opened.atLeast (h : Opened f) (required : Precedence) (node : Expression) :
    Opened (atLeast required node f) := by
  unfold Fragment.atLeast
  split
  · exact (headed_paren f).opened
  · exact h

/-- What writes the same as a fragment of several lexemes opens like it. -/
theorem Opened.rewrap (h : Opened f) (compound : ∀ l, f ≠ .lexeme l)
    (lexemes : ∀ b, g.lexemes b = f.lexemes b) : Opened g := fun b => by
  obtain ⟨l, rest, first, opening⟩ := h b
  refine ⟨l, rest, (lexemes b).trans first, opening.imp_right (Or.imp_left ?_)⟩
  exact fun single => absurd single.2 (compound l)

/-- An expression with a bare `in`. -/
theorem Opened.containsIn (h : Opened f) (compound : ∀ l, f ≠ .lexeme l) :
    Opened (containsIn f) := fun b => by
  cases b with
  | true => exact ⟨.verbatim "(", _, by rw [lexemes_containsIn]; exact lexemes_paren false f,
      .inl (by decide)⟩
  | false =>
      obtain ⟨l, rest, first, opening⟩ := h false
      refine ⟨l, rest, by rw [lexemes_containsIn]; exact first, opening.imp_right (Or.imp_left ?_)⟩
      exact fun single => absurd single.2 (compound l)

/-! ## Expressions -/

theorem Opened.binary (h : Opened f) (left : Expression) (operator : BinaryOperator)
    (right : Expression) (r : Fragment) : Opened (binary left operator right f r) := by
  have first : Opened (binaryOperands left operator right f r).1 := by
    unfold binaryOperands
    dsimp only
    split
    · exact h.parenIf _
    · exact h.atLeast _ _
  unfold Fragment.binary
  generalize binaryOperands left operator right f r = operands at first
  have further : goesOn operator.text = true := by cases operator <;> decide
  dsimp only
  split
  · exact first.seq further _
  · exact (first.spaced further _).containsIn fun l same => by cases same
  · exact first.spaced further _

theorem headed_unary (operator : UnaryOperator) (operand : Expression) (f : Fragment) :
    Headed (unary operator operand f) := by
  have plain : (Lexeme.verbatim operator.text).startsNoString = true := by
    cases operator <;> decide
  unfold Fragment.unary
  dsimp only
  split
  · exact headed_keyword plain _
  · exact (headed_token plain).seq _

theorem Opened.staticMember (h : Opened f) (object : Node .subject) (property : String) :
    Opened (staticMember object f property) := (h.parenIf _).seq (by decide) _

theorem Opened.computedMember (h : Opened f) (object : Node .subject) (key : Fragment) :
    Opened (computedMember object f key) := by
  have member : Opened (Fragment.seq [memberObject object f, bracket key]) :=
    (h.parenIf _).indexed key
  unfold Fragment.computedMember markedIf
  split
  · exact member.rewrap (fun l same => by cases same) fun b => by simp
  · exact member

theorem headed_template (pieces : List TemplatePiece) : Headed (template none pieces) :=
  (headed_token (by decide) : Headed (token "\x60")).seq _

theorem headed_objectBraces (properties : List Fragment) : Headed (objectBraces properties) :=
  (headed_brace _).marked _

/-- Behind the parameters of an arrow function comes the arrow. -/
theorem Opened.arrow (h : Opened f) (isAsync : Bool) (body : Fragment) :
    Opened (Fragment.seq (asyncHead isAsync ++ [Fragment.spaced [f, token "=>", body]])) := by
  cases isAsync with
  | true => exact ((headed_token (by decide) : Headed (token "async")).seq _).opened
  | false =>
      have plain : Opened (Fragment.spaced [f, token "=>", body]) := h.spaced (by decide) [body]
      exact plain.rewrap (fun l same => by cases same) fun b => by simp [asyncHead]

end Fragment

end EcmaScribe
