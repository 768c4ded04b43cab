/-
# EcmaScribe.Proofs.Fragment.Leading -- how the tokens of a fragment start

An ancestor judges by `Fragment.leading` whether a fragment needs parentheses, a reader of the
script judges by its tokens.  `Leading.ofTokens` is the reader's judgement, and a fragment is
`Announced` when the two agree.  They differ in one case: where a bare `in` is forbidden the
fragment may come in parentheses that `leading` does not count on.

Each way to build a fragment has its lemma.  The first child decides, since no rule goes on
after a single token with `[` or `function`; the bracket of a computed member is the exception,
and there the rule asks whether the object is `let`.
-/
import EcmaScribe.Proofs.Text.Identifier
import EcmaScribe.Proofs.Text.NameEscape
import EcmaScribe.Proofs.WebSafe

namespace EcmaScribe

set_option autoImplicit false

open Text

/-! ## The first tokens -/

/-- Whether tokens start with the given words. -/
def Token.startWith (words : List String) (tokens : List Token) : Bool :=
  (words.map fun word => text word.toList).isPrefixOf tokens

namespace Leading

/-- What a reader takes the first tokens for. -/
def ofTokens (tokens : List Token) : Leading where
  startsWithLet := Token.startWith ["let"] tokens
  startsWithCurly := Token.startWith ["\x7b"] tokens
  startsWithLetBracket := Token.startWith ["let", "["] tokens
  startsWithFunctionOrClass :=
    Token.startWith ["function"] tokens || Token.startWith ["class"] tokens ||
      Token.startWith ["async", "function"] tokens

/-- What may stand after a single token without making a hazard of it. -/
def isHarmless (token : Token) : Bool :=
  token ≠ .text "[".toList && token ≠ .text "function".toList

theorem ofTokens_cons_of_harmless (x : Token) {y : Token} (h : isHarmless y = true)
    (rest : List Token) : ofTokens (x :: y :: rest) = ofTokens [x] := by
  simp only [isHarmless, Bool.and_eq_true, decide_eq_true_eq] at h
  have bracket : (Token.text "[".toList == y) = false := beq_eq_false_iff_ne.2 h.1.symm
  have function : (Token.text "function".toList == y) = false := beq_eq_false_iff_ne.2 h.2.symm
  simp only [ofTokens, Token.startWith, List.map_cons, List.map_nil, List.isPrefixOf, bracket,
    function, Bool.and_false, Bool.false_and]

/-- Two tokens decide. -/
theorem ofTokens_append {tokens more : List Token} (nonempty : tokens ≠ [])
    (harmless : ∀ y ∈ more.head?, isHarmless y = true) :
    ofTokens (tokens ++ more) = ofTokens tokens := by
  match tokens, nonempty with
  | [x], _ =>
      cases more with
      | nil => rfl
      | cons y rest => exact ofTokens_cons_of_harmless x (harmless y rfl) rest
  | _ :: _ :: _, _ => rfl

/-- A bracket makes a hazard of `let` alone. -/
theorem ofTokens_cons_bracket {x : Token} (noLet : (ofTokens [x]).startsWithLet = false)
    (rest : List Token) : ofTokens (x :: .text "[".toList :: rest) = ofTokens [x] := by
  have different : (Token.text "let".toList == x) = false := by
    simpa [ofTokens, Token.startWith, List.isPrefixOf] using noLet
  have bracket : (Token.text "function".toList == Token.text "[".toList) = false := by decide
  simp only [ofTokens, Token.startWith, List.map_cons, List.map_nil, List.isPrefixOf, different,
    bracket, Bool.and_false, Bool.false_and]

/-- A single token is a hazard by what it is. -/
theorem ofTokens_singleton {chars : List Char}
    (h : ∀ word ∈ ["\x7b", "function", "class"], chars ≠ word.toList) :
    ofTokens [.text chars] = { startsWithLet := chars = "let".toList } := by
  have word {word : String} : (Token.text word.toList == Token.text chars) =
      decide (chars = word.toList) := by
    rw [Bool.eq_iff_iff, beq_iff_eq, decide_eq_true_iff, Token.text.injEq, eq_comm]
  simp only [ofTokens, Token.startWith, List.map_cons, List.map_nil, List.isPrefixOf, word,
    h _ (by simp : "\x7b" ∈ _), h _ (by simp : "function" ∈ _), h _ (by simp : "class" ∈ _)]
  simp

end Leading

/-! ## Announced fragments -/

namespace Fragment

/-- What a fragment leads with is what its tokens are taken for. -/
structure Announced (spelling : Spelling) (f : Fragment) : Prop where
  written : f.isBlank = false
  nonempty : ∀ b, f.lexemes b ≠ []
  /-- A fragment of one lexeme is that lexeme. -/
  single : ∀ b l, f.lexemes b = [l] → f = .lexeme l
  opening : ∀ b, Leading.ofTokens (f.writtenTokens spelling b) = f.leading ∨
    b = true ∧ ∃ rest, f.writtenTokens spelling b = .text "(".toList :: rest

variable {spelling : Spelling} {f g : Fragment}

/-- Where a bare `in` is allowed, the two always agree. -/
theorem Announced.leading_eq (h : Announced spelling f) :
    f.leading = Leading.ofTokens (f.writtenTokens spelling false) := by
  rcases h.opening false with same | ⟨absurd, -⟩
  · exact same.symm
  · cases absurd

/-- A fragment starts with nothing that it does not lead with, and possibly with a
parenthesis instead. -/
theorem Announced.ofTokens_cases (h : Announced spelling f) (b : Bool) :
    Leading.ofTokens (f.writtenTokens spelling b) = f.leading ∨
      Leading.ofTokens (f.writtenTokens spelling b) = .none := by
  refine (h.opening b).imp_right fun ⟨_, rest, start⟩ => ?_
  rw [start]
  rfl

/-- A fragment that starts with another one and goes on with something harmless. -/
theorem Announced.followed (h : Announced spelling f) (next : Lexeme) (rest : Bool → List Lexeme)
    (lexemes : ∀ b, g.lexemes b = f.lexemes b ++ next :: rest b)
    (harmless : Leading.isHarmless (next.spell spelling) = true)
    (written : g.isBlank = false) (leading : g.leading = f.leading) : Announced spelling g where
  written := written
  nonempty := fun b => by simp [lexemes]
  single := fun b l same => by
    rw [lexemes] at same
    have length := congrArg List.length same
    have positive := List.length_pos_iff.2 (h.nonempty b)
    simp only [List.length_append, List.length_cons, List.length_nil] at length
    omega
  opening := fun b => by
    have tokens : g.writtenTokens spelling b = f.writtenTokens spelling b ++
        next.spell spelling :: (rest b).map (Lexeme.spell spelling) := by
      simp only [writtenTokens_eq, lexemes, List.map_append, List.map_cons]
    rw [leading, tokens]
    refine (h.opening b).imp (fun same => ?_) fun ⟨forbidden, more, start⟩ => ?_
    · rw [← same]
      refine Leading.ofTokens_append ?_ fun y first => ?_
      · simpa [writtenTokens_eq] using h.nonempty b
      · cases first
        exact harmless
    · exact ⟨forbidden, _, by rw [start, List.cons_append]⟩

/-- A fragment that starts with a fixed text. -/
theorem announced_headed (text : String) (rest : Bool → List Lexeme)
    (lexemes : ∀ b, g.lexemes b = .verbatim text :: rest b) (more : ∀ b, rest b ≠ [])
    (written : g.isBlank = false)
    (opening : ∀ b, Leading.ofTokens
      (.text text.toList :: (rest b).map (Lexeme.spell spelling)) = g.leading) :
    Announced spelling g where
  written := written
  nonempty := fun b => by simp [lexemes]
  single := fun b l same => by
    rw [lexemes] at same
    exact absurd (List.cons.inj same).2 (more b)
  opening := fun b => .inl (by
    rw [writtenTokens_eq, lexemes]
    exact opening b)

/-- A single lexeme. -/
theorem announced_lexeme {l : Lexeme} (written : l.isBlank = false)
    (opening : Leading.ofTokens [l.spell spelling] = { startsWithLet := l.isLet }) :
    Announced spelling (.lexeme l) where
  written := by simpa [isBlank] using written
  nonempty := fun b => by simp
  single := fun b m same => by
    rw [lexemes_lexeme] at same
    rw [(List.cons.inj same).1]
  opening := fun b => .inl (by
    rw [writtenTokens_eq, lexemes_lexeme, leading]
    exact opening)

theorem announced_paren (f : Fragment) : Announced spelling (paren f) :=
  announced_headed "(" (fun _ => f.lexemes false ++ [.verbatim ")"]) (fun b => by simp)
    (fun b => by simp) (by simp [isBlank]) fun _ => rfl

theorem announced_bracket (f : Fragment) : Announced spelling (bracket f) :=
  announced_headed "[" (fun _ => f.lexemes false ++ [.verbatim "]"]) (fun b => by simp)
    (fun b => by simp) (by simp [isBlank]) fun _ => rfl

theorem announced_parenIf (h : Announced spelling f) (condition : Bool) :
    Announced spelling (parenIf condition f) := by
  cases condition with
  | true => exact announced_paren f
  | false => exact h

theorem announced_atLeast (h : Announced spelling f) (required : Precedence) (node : Expression) :
    Announced spelling (atLeast required node f) := by
  unfold atLeast
  split
  · exact announced_paren f
  · exact h

/-- The first of the children in a row decides. -/
theorem leading_seq (written : f.isBlank = false) (rest : List Fragment) :
    (seq (f :: rest)).leading = f.leading := by
  simp [leading, leadingFirst, written]

theorem isBlank_seq (written : f.isBlank = false) (rest : List Fragment) :
    (seq (f :: rest)).isBlank = false := by
  simp [isBlank, allBlank, written]

theorem Announced.spaced (h : Announced spelling f) {text : String}
    (harmless : Leading.isHarmless (.text text.toList) = true) (rest : List Fragment) :
    Announced spelling (spaced (f :: token text :: rest)) :=
  h.followed (.verbatim text) (fun b => rest.flatMap (lexemes b)) (fun b => by simp) harmless
    (isBlank_seq h.written _) (leading_seq h.written _)

theorem Announced.seq (h : Announced spelling f) {text : String}
    (harmless : Leading.isHarmless (.text text.toList) = true) (rest : List Fragment) :
    Announced spelling (seq (f :: token text :: rest)) :=
  h.followed (.verbatim text) (fun b => rest.flatMap (lexemes b)) (fun b => by simp) harmless
    (isBlank_seq h.written _) (leading_seq h.written _)

theorem announced_token {text : String} (nonempty : text ≠ "")
    (plain : Leading.ofTokens [.text text.toList] = .none) : Announced spelling (token text) :=
  announced_lexeme (by simpa [Lexeme.isBlank] using nonempty) plain

/-- A fragment that starts with a fixed text and is no hazard. -/
theorem announced_seq_headed {text : String} {rest : List Fragment} (nonempty : text ≠ "")
    (plain : ∀ tokens, Leading.ofTokens (.text text.toList :: tokens) = .none)
    (more : ∀ b, rest.flatMap (lexemes b) ≠ []) : Announced spelling (seq (token text :: rest)) := by
  have written : (token text).isBlank = false := by
    simpa [token, isBlank, Lexeme.isBlank] using nonempty
  refine announced_headed text (fun b => rest.flatMap (lexemes b)) (fun b => by simp) more
    (isBlank_seq written rest) fun b => ?_
  rw [leading_seq written, plain]
  rfl

theorem announced_spaced_headed {text : String} {rest : List Fragment} (nonempty : text ≠ "")
    (plain : ∀ tokens, Leading.ofTokens (.text text.toList :: tokens) = .none)
    (more : ∀ b, rest.flatMap (lexemes b) ≠ []) :
    Announced spelling (Fragment.spaced (token text :: rest)) :=
  announced_seq_headed nonempty plain fun b => by
    simpa [List.flatMap_assoc] using more b

/-- A single child. -/
theorem Announced.alone (h : Announced spelling f) (compound : ∀ l, f ≠ .lexeme l) :
    Announced spelling (Fragment.seq [f]) where
  written := isBlank_seq h.written _
  nonempty := fun b => by simpa using h.nonempty b
  single := fun b l same => absurd (h.single b l (by simpa using same)) (compound l)
  opening := fun b => by
    have same : (Fragment.seq [f]).writtenTokens spelling b = f.writtenTokens spelling b := by
      simp [writtenTokens_eq]
    rw [leading_seq h.written, same]
    exact h.opening b

/-! ## Members and calls -/

theorem Announced.called (h : Announced spelling f) (arguments : Fragment) :
    Announced spelling (Fragment.seq [f, paren arguments]) :=
  h.followed (.verbatim "(") (fun _ => arguments.lexemes false ++ [.verbatim ")"])
    (fun b => by simp) rfl (isBlank_seq h.written _) (leading_seq h.written _)

/-- The bracket after an object that is not the name `let`. -/
theorem Announced.bracketed (h : Announced spelling f) (noLet : ∀ l, f = .lexeme l → l.isLet = false)
    (key : Fragment) : Announced spelling (Fragment.seq [f, bracket key]) where
  written := isBlank_seq h.written _
  nonempty := fun b => by simp
  single := fun b l same => by
    have length := congrArg List.length same
    have positive := List.length_pos_iff.2 (h.nonempty b)
    simp at length
    omega
  opening := fun b => by
    have tokens : (Fragment.seq [f, bracket key]).writtenTokens spelling b =
        f.writtenTokens spelling b ++ .text "[".toList ::
          (key.lexemes false ++ [Lexeme.verbatim "]"]).map (Lexeme.spell spelling) := by
      simp [writtenTokens_eq, Lexeme.spell]
    rw [leading_seq h.written, tokens]
    refine (h.opening b).imp (fun same => ?_) fun ⟨forbidden, more, start⟩ =>
      ⟨forbidden, _, by rw [start, List.cons_append]⟩
    rw [writtenTokens_eq] at same ⊢
    match written : f.lexemes b with
    | [] => exact absurd written (h.nonempty b)
    | [l] =>
        have isLexeme := h.single b l written
        rw [written, isLexeme, leading, noLet l isLexeme] at same
        rw [isLexeme, leading, noLet l isLexeme, ← same]
        exact Leading.ofTokens_cons_bracket (by rw [List.map_cons, List.map_nil] at same; rw [same]) _
    | _ :: _ :: _ =>
        rw [written] at same
        exact same

/-- The bracket after the name `let`, which a reader takes for a declaration. -/
theorem announced_bareLet (key : Fragment) : Announced spelling
    (.marked .startsWithLetBracket
      (Fragment.seq [.lexeme (.name .used "let"), bracket key])) where
  written := rfl
  nonempty := fun b => by simp
  single := fun b l same => by simp at same
  opening := fun b => by
    have spelled : (Lexeme.name .used "let").spell spelling = .text "let".toList := by
      cases spelling <;> decide
    left
    rw [writtenTokens_eq, lexemes_marked, lexemes_seq, List.flatMap_cons, lexemes_lexeme,
      List.singleton_append, List.map_cons, spelled, List.flatMap_singleton, lexemes_bracket]
    rfl

theorem announced_staticMember (h : Announced spelling f) (object : Node .subject)
    (property : String) : Announced spelling (staticMember object f property) :=
  (announced_parenIf h _).seq rfl _

/-! ## Operators -/

/-- An expression with a bare `in`. -/
theorem Announced.containsIn (h : Announced spelling f) (compound : ∀ l, f ≠ .lexeme l) :
    Announced spelling (containsIn f) where
  written := by simpa [isBlank] using h.written
  nonempty := fun b => by
    cases b with
    | true => simp [lexemes_containsIn]
    | false => simpa [lexemes_containsIn] using h.nonempty false
  single := fun b l same => by
    cases b with
    | true => simp [lexemes_containsIn] at same
    | false =>
        rw [lexemes_containsIn] at same
        exact absurd (h.single false l same) (compound l)
  opening := fun b => by
    cases b with
    | true =>
        refine .inr ⟨rfl, (f.lexemes false ++ [Lexeme.verbatim ")"]).map (Lexeme.spell spelling), ?_⟩
        simp [writtenTokens_eq, lexemes_containsIn, Lexeme.spell]
    | false =>
        left
        rw [leading, h.leading_eq, writtenTokens_eq, writtenTokens_eq, lexemes_containsIn]
        rfl

theorem announced_binary (h : Announced spelling f) (left : Expression)
    (operator : BinaryOperator) (right : Expression) (r : Fragment) :
    Announced spelling (binary left operator right f r) := by
  have first : Announced spelling (binaryOperands left operator right f r).1 := by
    unfold binaryOperands
    dsimp only
    split
    · exact announced_parenIf h _
    · exact announced_atLeast h _ _
  unfold binary
  generalize binaryOperands left operator right f r = operands at first
  have harmless : Leading.isHarmless (.text operator.text.toList) = true := by
    cases operator <;> rfl
  dsimp only
  split
  · exact first.seq harmless _
  · exact (first.spaced harmless _).containsIn fun l same => by cases same
  · exact first.spaced harmless _

theorem announced_unary (h : Announced spelling f) (operator : UnaryOperator)
    (operand : Expression) : Announced spelling (unary operator operand f) := by
  have nonempty : operator.text ≠ "" := by cases operator <;> decide
  have plain : ∀ tokens, Leading.ofTokens (.text operator.text.toList :: tokens) = .none := by
    cases operator <;> exact fun _ => rfl
  have more : ∀ b, [atLeast .prefixed operand f].flatMap (lexemes b) ≠ [] := fun b => by
    simpa using (announced_atLeast h .prefixed operand).nonempty b
  unfold unary
  dsimp only
  split
  · exact announced_spaced_headed nonempty plain more
  · exact announced_seq_headed nonempty plain more

theorem announced_template (pieces : List TemplatePiece) :
    Announced spelling (template none pieces) := by
  have shape : template none pieces = Fragment.seq (token "\x60" ::
      (TemplatePiece.fragments (pieces.countP (·.isText)) 0 pieces ++ [token "\x60"])) := rfl
  rw [shape]
  refine announced_seq_headed (by decide) (fun _ => rfl) fun b => ?_
  rw [List.flatMap_append]
  exact List.append_ne_nil_of_right_ne_nil _ (by simp)

/-! ## Objects, functions and classes -/

theorem announced_objectBraces (properties : List Fragment) :
    Announced spelling (objectBraces properties) := by
  refine announced_headed "\x7b" (fun _ => (commaSep properties).lexemes false ++ [.verbatim "\x7d"])
    (fun b => by simp [objectBraces]) (fun b => by simp) (by simp [objectBraces, isBlank])
    fun b => ?_
  rw [objectBraces, leading]
  rfl

theorem lexemes_block_ne_nil (b : Bool) (children : List Fragment) :
    (block children).lexemes b ≠ [] := by
  rw [lexemes_block]
  split <;> simp

theorem announced_class (name heritage : Option Fragment) (elements : List Fragment) :
    Announced spelling (.marked .startsWithFunctionOrClass (class_ name heritage elements)) := by
  have shape : class_ name heritage elements = Fragment.spaced (token "class" :: (name.toList ++
      heritage.toList.flatMap (fun f => [token "extends", f]) ++ [block elements])) := rfl
  have written : (token "class").isBlank = false := rfl
  rw [shape]
  refine announced_headed "class" _ (fun b => by
    rw [lexemes_marked, lexemes_spaced, lexemes_token, List.singleton_append]) (fun b => ?_) ?_
    fun b => ?_
  · rw [List.flatMap_append, List.flatMap_singleton]
    exact List.append_ne_nil_of_right_ne_nil _ (lexemes_block_ne_nil b elements)
  · rw [isBlank]
    exact isBlank_seq written _
  · rw [leading, Fragment.spaced, leading_seq written]
    rfl

/-- An arrow function that writes `f` for its parameters. -/
theorem announced_arrow (h : Announced spelling f) {l : Lexeme}
    (starts : ∀ b, (f.lexemes b).head? = some l)
    (harmless : Leading.isHarmless (l.spell spelling) = true) (isAsync : Bool) (body : Fragment) :
    Announced spelling
      (Fragment.seq (asyncHead isAsync ++ [Fragment.spaced [f, token "=>", body]])) := by
  cases isAsync with
  | false => exact (h.spaced rfl [body]).alone fun l same => by cases same
  | true =>
      have async : Announced spelling (token "async") := announced_token (by decide) rfl
      refine async.followed l (fun b => (f.lexemes b).tail ++ .verbatim "=>" :: body.lexemes b)
        (fun b => ?_) harmless (isBlank_seq rfl _) (leading_seq rfl _)
      obtain ⟨rest, lexemes⟩ := List.head?_eq_some_iff.1 (starts b)
      simp [asyncHead, lexemes]

theorem announced_function (isAsync isGenerator : Bool) (name : Option Fragment)
    {params : Fragment} (written : ∀ b, params.lexemes b ≠ []) (body : Fragment) :
    Announced spelling
      (.marked .startsWithFunctionOrClass (function isAsync isGenerator name params body)) := by
  have keyword : (token "function").isBlank = false := rfl
  have async : (token "async").isBlank = false := rfl
  -- what comes after the keyword
  have more : ∃ rest : List Fragment, (∀ b, rest.flatMap (lexemes b) ≠ []) ∧
      function isAsync isGenerator name params body =
        Fragment.seq (asyncHead isAsync ++ token "function" :: rest) := by
    refine ⟨generatorStar isGenerator ++ name.toList.flatMap (fun name => [space, name]) ++
      [params, space, body], fun b => ?_, ?_⟩
    · rw [List.flatMap_append, List.flatMap_cons]
      exact List.append_ne_nil_of_right_ne_nil _ (List.append_ne_nil_of_left_ne_nil (written b) _)
    · simp [function]
  obtain ⟨rest, nonempty, shape⟩ := more
  rw [shape]
  cases isAsync with
  | false =>
      refine announced_headed "function" (fun b => rest.flatMap (lexemes b)) (fun b => by
        simp [asyncHead]) nonempty (isBlank_seq keyword rest) fun b => ?_
      rw [leading]
      exact (congrArg (Leading.mark · .startsWithFunctionOrClass) (leading_seq keyword rest)).symm
  | true =>
      refine announced_headed "async" (fun b => .verbatim "function" :: rest.flatMap (lexemes b))
        (fun b => by simp [asyncHead]) (fun b => by simp) (isBlank_seq async _) fun b => ?_
      rw [leading]
      exact (congrArg (Leading.mark · .startsWithFunctionOrClass) (leading_seq async _)).symm

end Fragment

end EcmaScribe
