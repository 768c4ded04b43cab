/-
# EcmaScribe.Proofs.Fragment.Composed -- the rules by which scripts are put together

A property of token sequences that concerns neighbours (no token is read together with the
next one, no tag is spelled over a seam, no bare `in` in a loop head) cannot be proved tree
by tree: it has to be known how the sequences of parts are joined.  `Composed` lists the
ways.  A sequence of standing `operand` may follow an operator; one of standing `phrase`
follows a finished phrase only, since it may be empty or start with a star.

`Node.composed` is the one induction over all trees: the lexemes of a tree are composed by
these rules from its leaves.  A property of all scripts is then an induction over the rules.
-/
import EcmaScribe.Proofs.Fragment.Lexemes
import EcmaScribe.Proofs.Tree.Leaf

namespace EcmaScribe

set_option autoImplicit false

/-! ## Rules -/

/-- What may stand in front of a sequence. -/
inductive Standing
  /-- Any operator that is left open. -/
  | operand
  /-- A finished phrase. -/
  | phrase
  deriving DecidableEq

/-- Words and punctuation that finish a phrase or start a new one. -/
def finishedTexts : List String :=
  [";", ",", ":", "?", "...", "++", "--",
    "export", "default", "import", "from", "as", "break", "continue", "debugger", "do", "while",
    "for", "of", "if", "else", "switch", "case", "return", "throw", "try", "catch", "finally",
    "with", "var", "let", "const", "async", "function", "get", "set", "class", "extends",
    "static", "await", "true", "false", "null", "new", "this", "super", "yield",
    "typeof", "void", "delete", "instanceof"]

/-- Operators that stand between two operands. -/
def infixTexts : List String :=
  ["=", "=>", "||", "&&", "|", "^", "&", "==", "!=", "===", "!==", "<", "<=", ">", ">=",
    "<<", ">>", ">>>", "+", "-", "*", "/", "%", "**",
    "+=", "-=", "*=", "/=", "%=", "**=", "<<=", ">>=", ">>>=", "|=", "^=", "&="]

/-- Operators that stand before their operand and are no words. -/
def prefixTexts : List String := ["+", "-", "!", "~"]

/-- Lexeme sequences put together from admitted leaves.  The flag tells that a bare `in`
would be misread. -/
inductive Composed (admits : Leaf → Prop) : Standing → Bool → List Lexeme → Prop
  | nil {b : Bool} : Composed admits .phrase b []
  | append {b : Bool} {l m : List Lexeme} (left : Composed admits .phrase b l)
      (right : Composed admits .phrase b m) : Composed admits .phrase b (l ++ m)
  | operand {b : Bool} {l : List Lexeme} (h : Composed admits .operand b l) :
      Composed admits .phrase b l
  | andThen {b : Bool} {l m : List Lexeme} (left : Composed admits .operand b l)
      (right : Composed admits .phrase b m) : Composed admits .operand b (l ++ m)
  | leaf {b : Bool} {leaf : Leaf} {l : Lexeme} (admitted : admits leaf)
      (written : leaf.lexeme? = some l) : Composed admits .operand b [l]
  | infinity {b : Bool} : Composed admits .operand b [.number (.infinity false)]
  | word {b : Bool} (text : String) (finished : text ∈ finishedTexts) :
      Composed admits .operand b [.verbatim text]
  | prefixed {b : Bool} (text : String) {m : List Lexeme} (operator : text ∈ prefixTexts)
      (operand : Composed admits .operand b m) :
      Composed admits .operand b (.verbatim text :: m)
  | infixed {b : Bool} {text : String} {l m : List Lexeme} (operator : text ∈ infixTexts)
      (left : Composed admits .operand b l) (right : Composed admits .operand b m) :
      Composed admits .operand b (l ++ .verbatim text :: m)
  /-- A bare `in`, where it is understood. -/
  | isIn {l m : List Lexeme} (left : Composed admits .operand false l)
      (right : Composed admits .operand false m) :
      Composed admits .operand false (l ++ .verbatim "in" :: m)
  /-- The star of a generator or of a whole module. -/
  | starred {b : Bool} {m : List Lexeme} (operand : Composed admits .operand b m) :
      Composed admits .phrase b (.verbatim "*" :: m)
  | member {b : Bool} {property : String} {l : List Lexeme}
      (admitted : admits (.name .member property)) (object : Composed admits .operand b l) :
      Composed admits .operand b (l ++ [.verbatim ".", .name .member property])
  | newTarget {b : Bool} :
      Composed admits .operand b [.verbatim "new", .verbatim ".", .verbatim "target"]
  | paren {b : Bool} {l : List Lexeme} (inner : Composed admits .phrase false l) :
      Composed admits .operand b (.verbatim "(" :: l ++ [.verbatim ")"])
  | bracket {b : Bool} {l : List Lexeme} (inner : Composed admits .phrase false l) :
      Composed admits .operand b (.verbatim "[" :: l ++ [.verbatim "]"])
  | brace {b : Bool} {l : List Lexeme} (inner : Composed admits .phrase false l) :
      Composed admits .operand b (.verbatim "\x7b" :: l ++ [.verbatim "\x7d"])
  | template {b d : Bool} {parts : Node (.list .templatePart)}
      (admitted : admits (.template parts))
      (substitutions : ∀ f, .code f ∈ parts.fragment → Composed admits .operand b (f.lexemes d)) :
      Composed admits .operand b ((Fragment.template none parts.fragment).lexemes d)

/-- What holds no bare `in` may stand anywhere. -/
theorem Composed.relax {admits : Leaf → Prop} {s : Standing} {b : Bool} {l : List Lexeme}
    (h : Composed admits s b l) : Composed admits s false l := by
  induction h with
  | nil => exact .nil
  | append _ _ left right => exact .append left right
  | operand _ ih => exact .operand ih
  | andThen _ _ left right => exact .andThen left right
  | leaf admitted written => exact .leaf admitted written
  | infinity => exact .infinity
  | word text finished => exact .word text finished
  | prefixed text operator _ ih => exact .prefixed text operator ih
  | infixed operator _ _ left right => exact .infixed operator left right
  | isIn left right => exact .isIn left right
  | starred _ ih => exact .starred ih
  | member admitted _ ih => exact .member admitted ih
  | newTarget => exact .newTarget
  | paren inner => exact .paren inner
  | bracket inner => exact .bracket inner
  | brace inner => exact .brace inner
  | template admitted _ ih => exact .template admitted ih

namespace Fragment

variable {admits : Leaf → Prop}

/-- A fragment whose lexemes may follow a finished phrase. -/
def Phrase (admits : Leaf → Prop) (f : Fragment) : Prop :=
  ∀ b, Composed admits .phrase b (f.lexemes b)

/-- A fragment whose lexemes may follow an operator. -/
def Operand (admits : Leaf → Prop) (f : Fragment) : Prop :=
  ∀ b, Composed admits .operand b (f.lexemes b)

/-! ## Fragments and lists of them -/

theorem Operand.phrase {f : Fragment} (h : Operand admits f) : Phrase admits f :=
  fun b => (h b).operand

theorem phrase_empty : Phrase admits empty := fun b => by simpa using Composed.nil

theorem phrase_space : Phrase admits space := fun b => by simpa using Composed.nil

theorem operand_token {text : String} (finished : text ∈ finishedTexts) :
    Operand admits (token text) := fun b => by simpa using Composed.word text finished

theorem operand_semicolon : Operand admits semicolon := fun b => by
  simpa using Composed.word ";" (by decide)

theorem operand_optionalSemicolon : Operand admits optionalSemicolon := fun b => by
  simpa using Composed.word ";" (by decide)

theorem operand_leaf {leaf : Leaf} {l : Lexeme} (admitted : admits leaf)
    (written : leaf.lexeme? = some l) : Operand admits (lexeme l) := fun b => by
  simpa using Composed.leaf admitted written

theorem operand_name {role : NameRole} {text : String} (admitted : admits (.name role text)) :
    Operand admits (lexeme (.name role text)) := operand_leaf admitted rfl

theorem operand_quoted {value : String} (admitted : admits (.specifier value)) :
    Operand admits (lexeme (.quoted value)) := operand_leaf admitted rfl

theorem operand_marked {mark : Mark} {f : Fragment} (h : Operand admits f) :
    Operand admits (marked mark f) := fun b => by simpa using h b

theorem operand_noIn {f : Fragment} (h : Operand admits f) : Operand admits (noIn f) :=
  fun b => by
    rw [lexemes_noIn]
    cases b
    · exact (h true).relax
    · exact h true

theorem operand_paren {f : Fragment} (h : Phrase admits f) : Operand admits (paren f) :=
  fun b => by simpa using (h false).paren

theorem operand_bracket {f : Fragment} (h : Phrase admits f) : Operand admits (bracket f) :=
  fun b => by simpa using (h false).bracket

theorem operand_brace {f : Fragment} (h : Phrase admits f) : Operand admits (brace f) :=
  fun b => by simpa using (h false).brace

theorem composed_flatMap {b : Bool} {fs : List Fragment} (h : ∀ f ∈ fs, Phrase admits f) :
    Composed admits .phrase b (fs.flatMap (lexemes b)) := by
  induction fs with
  | nil => exact .nil
  | cons f fs ih =>
      rw [List.flatMap_cons]
      exact (h f (by simp) b).append (ih fun g hg => h g (by simp [hg]))

theorem phrase_seq {fs : List Fragment} (h : ∀ f ∈ fs, Phrase admits f) :
    Phrase admits (seq fs) := fun b => by simpa using composed_flatMap h

theorem operand_seq {f : Fragment} {fs : List Fragment} (first : Operand admits f)
    (h : ∀ g ∈ fs, Phrase admits g) : Operand admits (seq (f :: fs)) := fun b => by
  simpa using (first b).andThen (composed_flatMap h)

theorem operand_spaced {f : Fragment} {fs : List Fragment} (first : Operand admits f)
    (h : ∀ g ∈ fs, Phrase admits g) : Operand admits (spaced (f :: fs)) := fun b => by
  simpa using (first b).andThen (composed_flatMap h)

/-- A keyword and what it introduces. -/
theorem operand_keyword {text : String} {fs : List Fragment} (finished : text ∈ finishedTexts)
    (h : ∀ g ∈ fs, Phrase admits g) : Operand admits (spaced (token text :: fs)) :=
  operand_spaced (operand_token finished) h

/-- A keyword, its head between parentheses, and a body. -/
theorem operand_headed {text : String} {head body : Fragment} (finished : text ∈ finishedTexts)
    (inner : Phrase admits head) (rest : Phrase admits body) :
    Operand admits (spaced [token text, .paren head, body]) :=
  operand_keyword finished (by simpa using ⟨(operand_paren inner).phrase, rest⟩)

theorem operand_statement {f : Fragment} (h : Operand admits f) : Operand admits (statement f) :=
  operand_seq h (by simpa using operand_optionalSemicolon.phrase)

theorem phrase_lines {fs : List Fragment} (h : ∀ f ∈ fs, Phrase admits f) :
    Phrase admits (lines fs) := fun b => by
  rw [lexemes_lines]
  exact composed_flatMap fun f hf => h f (List.mem_filter.1 hf).1

theorem phrase_indent {f : Fragment} (h : Phrase admits f) : Phrase admits (indent f) :=
  fun b => by
    rw [lexemes_indent]
    split
    · exact .nil
    · exact h b

theorem operand_block {fs : List Fragment} (h : ∀ f ∈ fs, Phrase admits f) :
    Operand admits (block fs) := fun b => by
  rw [lexemes_block]
  split
  · exact Composed.nil.brace
  · exact (phrase_lines h false).brace

theorem composed_commas {b first : Bool} {fs : List Fragment} (h : ∀ f ∈ fs, Phrase admits f) :
    Composed admits .phrase b (lexemesCommas b first fs) := by
  induction fs generalizing first with
  | nil => exact .nil
  | cons f fs ih =>
      rw [lexemesCommas]
      refine .append (.append ?_ (h f (by simp) b)) (ih fun g hg => h g (by simp [hg]))
      cases first
      · exact (Composed.word "," (by decide)).operand
      · exact .nil

theorem phrase_commaSep {fs : List Fragment} (h : ∀ f ∈ fs, Phrase admits f) :
    Phrase admits (commaSep fs) := fun b => by
  rw [lexemes_commaSep]
  exact composed_commas h

/-! ## Phrases -/

theorem operand_parenIf {condition : Bool} {f : Fragment} (h : Operand admits f) :
    Operand admits (parenIf condition f) := by
  unfold parenIf
  split
  · exact operand_paren h.phrase
  · exact h

theorem operand_atLeast {required : Precedence} {node : Expression} {f : Fragment}
    (h : Operand admits f) : Operand admits (atLeast required node f) := by
  unfold atLeast
  split
  · exact operand_paren h.phrase
  · exact h

theorem operand_infixed {text : String} {f g : Fragment} (operator : text ∈ infixTexts)
    (left : Operand admits f) (right : Operand admits g) :
    Operand admits (spaced [f, token text, g]) := fun b => by
  simpa using (left b).infixed operator (right b)

theorem operand_defaulted {target value : Fragment} {node : Expression}
    (left : Operand admits target) (right : Operand admits value) :
    Operand admits (defaulted target node value) :=
  operand_infixed (by decide) left (operand_atLeast right)

theorem operand_keyed {name value : Fragment} (left : Operand admits name)
    (right : Phrase admits value) : Operand admits (keyed name value) :=
  operand_seq left (by
    simpa using ⟨(operand_token (by decide)).phrase, phrase_space, right⟩)

theorem operand_rest {f : Fragment} (h : Operand admits f) : Operand admits (rest f) :=
  operand_seq (operand_token (by decide)) (by simpa using h.phrase)

theorem phrase_elements {items : List (Option Fragment)}
    (h : ∀ item ∈ items, ∀ f ∈ item, Phrase admits f) : Phrase admits (elements items) := by
  have list : Phrase admits (commaSep (items.map (·.getD empty))) := by
    refine phrase_commaSep fun f hf => ?_
    obtain ⟨item, member, rfl⟩ := List.mem_map.1 hf
    cases item with
    | none => exact phrase_empty
    | some f => exact h _ member f rfl
  unfold elements
  split
  · exact phrase_seq (by simpa using ⟨list, (operand_token (by decide)).phrase⟩)
  · exact list

theorem phrase_patternElements {items : List (Option Fragment)} {remainder : Option Fragment}
    (h : ∀ item ∈ items, ∀ f ∈ item, Operand admits f)
    (hRest : ∀ f ∈ remainder, Operand admits f) :
    Phrase admits (elements (items ++ remainder.toList.map fun f => some (rest f))) := by
  refine phrase_elements fun item member f hf => ?_
  rcases List.mem_append.1 member with listed | last
  · exact (h item listed f hf).phrase
  · obtain ⟨g, hg, rfl⟩ := List.mem_map.1 last
    cases hf
    exact (operand_rest (hRest g (by simpa using hg))).phrase

theorem operand_arrayPattern {items : List (Option Fragment)} {remainder : Option Fragment}
    (h : ∀ item ∈ items, ∀ f ∈ item, Operand admits f)
    (hRest : ∀ f ∈ remainder, Operand admits f) :
    Operand admits (arrayPattern items remainder) :=
  operand_bracket (phrase_patternElements h hRest)

theorem operand_objectBraces {properties : List Fragment}
    (h : ∀ f ∈ properties, Phrase admits f) : Operand admits (objectBraces properties) :=
  operand_marked (operand_brace (phrase_commaSep h))

theorem operand_staticMember {object : Node .subject} {f : Fragment} {property : String}
    (admitted : admits (.name .member property)) (h : Operand admits f) :
    Operand admits (staticMember object f property) := fun b => by
  simpa [staticMember, memberObject] using Composed.member admitted (operand_parenIf h b)

theorem operand_computedMember {object : Node .subject} {f key : Fragment}
    (h : Operand admits f) (hKey : Phrase admits key) :
    Operand admits (computedMember object f key) := by
  have access : Operand admits (seq [memberObject object f, bracket key]) :=
    operand_seq (operand_parenIf h) (by simpa using (operand_bracket hKey).phrase)
  unfold computedMember markedIf
  split
  · exact operand_marked access
  · exact access

/-- An optional `async` in front. -/
theorem operand_asyncHead {isAsync : Bool} {f : Fragment} {fs : List Fragment}
    (first : Operand admits f) (h : ∀ g ∈ fs, Phrase admits g) :
    Operand admits (seq (asyncHead isAsync ++ f :: fs)) := by
  cases isAsync
  · exact operand_seq first h
  · exact operand_seq (operand_token (by decide)) (by
      simpa using ⟨phrase_space, first.phrase, h⟩)

/-- A star in front of an operand. -/
theorem phrase_star {f : Fragment} {fs : List Fragment} (first : Operand admits f)
    (h : ∀ g ∈ fs, Phrase admits g) : Phrase admits (seq (token "*" :: f :: fs)) := fun b => by
  simpa using ((first b).andThen (composed_flatMap h)).starred

theorem operand_function {isAsync isGenerator : Bool} {name : Option Fragment}
    {params body : Fragment} (hName : ∀ f ∈ name, Operand admits f)
    (hParams : Operand admits params) (hBody : Phrase admits body) :
    Operand admits (function isAsync isGenerator name params body) := by
  -- what follows the word `function`, with its star
  have tail : Phrase admits (seq (generatorStar isGenerator ++
      name.toList.flatMap (fun name => [space, name]) ++ [params, space, body])) := by
    cases name with
    | none =>
        cases isGenerator
        · exact (operand_seq hParams (by simpa using ⟨phrase_space, hBody⟩)).phrase
        · exact phrase_star hParams (by simpa using ⟨phrase_space, hBody⟩)
    | some name =>
        have named := hName name rfl
        cases isGenerator
        · exact phrase_seq (by
            simpa [generatorStar] using
              ⟨phrase_space, named.phrase, hParams.phrase, phrase_space, hBody⟩)
        · intro b
          simpa [generatorStar] using ((named b).andThen
            ((hParams b).operand.append (hBody b))).starred
  intro b
  have head : Operand admits (seq (asyncHead isAsync ++ token "function" :: [seq
      (generatorStar isGenerator ++ name.toList.flatMap (fun name => [space, name]) ++
        [params, space, body])])) :=
    operand_asyncHead (operand_token (by decide)) (by simpa using tail)
  simpa [function] using head b

theorem phrase_method {isAsync isGenerator : Bool} {name params body : Fragment}
    (hName : Operand admits name) (hParams : Phrase admits params) (hBody : Phrase admits body) :
    Phrase admits (method isAsync isGenerator name params body) := by
  have tail : ∀ g ∈ [params, space, body], Phrase admits g := by
    simpa using ⟨hParams, phrase_space, hBody⟩
  cases isGenerator
  · simpa [method, generatorStar] using (operand_asyncHead hName tail).phrase
  · cases isAsync
    · simpa [method, generatorStar, asyncHead] using phrase_star hName tail
    · intro b
      have starred := phrase_star hName tail b
      simpa [method, generatorStar, asyncHead] using
        ((Composed.word "async" (by decide)).andThen starred).operand

theorem operand_accessor {keyword : String} {name param body : Fragment}
    (finished : keyword ∈ finishedTexts) (hName : Operand admits name)
    (hParam : Phrase admits param) (hBody : Phrase admits body) :
    Operand admits (accessor keyword name param body) :=
  operand_seq (operand_token finished) (by
    simpa using ⟨phrase_space, hName.phrase, (operand_paren hParam).phrase, phrase_space, hBody⟩)

theorem phrase_parameterItems {items : List Fragment} {remainder : Option Fragment}
    (h : ∀ f ∈ items, Operand admits f) (hRest : ∀ f ∈ remainder, Operand admits f) :
    Phrase admits (commaSep (items ++ remainder.toList.map rest)) := by
  refine phrase_commaSep fun f member => ?_
  rcases List.mem_append.1 member with listed | last
  · exact (h f listed).phrase
  · obtain ⟨g, hg, rfl⟩ := List.mem_map.1 last
    exact (operand_rest (hRest g (by simpa using hg))).phrase

theorem operand_parameterList {items : List Fragment} {remainder : Option Fragment}
    (h : ∀ f ∈ items, Operand admits f) (hRest : ∀ f ∈ remainder, Operand admits f) :
    Operand admits (parameterList items remainder) :=
  operand_paren (phrase_parameterItems h hRest)

theorem operand_class {name heritage : Option Fragment} {elements : List Fragment}
    (hName : ∀ f ∈ name, Operand admits f) (hHeritage : ∀ f ∈ heritage, Operand admits f)
    (h : ∀ f ∈ elements, Phrase admits f) : Operand admits (class_ name heritage elements) := by
  have shape : class_ name heritage elements = spaced (token "class" :: (name.toList ++
      heritage.toList.flatMap (fun f => [token "extends", f]) ++ [block elements])) := by
    simp [class_]
  rw [shape]
  refine operand_keyword (by decide) fun f member => ?_
  simp only [List.mem_append, List.mem_flatMap, List.mem_cons, List.not_mem_nil, or_false,
    Option.mem_toList] at member
  rcases member with (named | ⟨g, hg, rfl | rfl⟩) | rfl
  · exact (hName f named).phrase
  · exact (operand_token (by decide)).phrase
  · exact (hHeritage _ hg).phrase
  · exact (operand_block h).phrase

theorem operand_renamed {name : Option Fragment} {other : Fragment}
    (hName : ∀ f ∈ name, Operand admits f) (hOther : Operand admits other) :
    Operand admits (renamed name other) := by
  cases name with
  | none => exact hOther
  | some name =>
      exact operand_spaced (hName name rfl) (by
        simpa using ⟨(operand_token (by decide)).phrase, hOther.phrase⟩)

theorem phrase_fromClause {specifier : String} (admitted : admits (.specifier specifier)) :
    ∀ f ∈ fromClause specifier, Phrase admits f := by
  simpa [fromClause] using ⟨(operand_token (by decide)).phrase, (operand_quoted admitted).phrase⟩

theorem operand_importNames {default : Option Fragment} {named : List Fragment}
    {specifier : String} (admitted : admits (.specifier specifier))
    (hDefault : ∀ f ∈ default, Operand admits f) (hNamed : ∀ f ∈ named, Operand admits f) :
    Operand admits (importNames default named specifier) := by
  have clause : ∀ f ∈ default.toList ++
      (if named.isEmpty then [] else [brace (commaSep named)]), Phrase admits f := by
    intro f member
    rcases List.mem_append.1 member with first | second
    · exact (hDefault f (by simpa using first)).phrase
    · split at second
      · cases second
      · rw [List.mem_singleton.1 second]
        exact (operand_brace (phrase_commaSep fun g hg => (hNamed g hg).phrase)).phrase
  refine operand_statement (operand_keyword (by decide) ?_)
  generalize default.toList ++ (if named.isEmpty then [] else [brace (commaSep named)]) = items
    at clause ⊢
  by_cases bare : items.isEmpty = true
  · simpa [bare] using (operand_quoted admitted).phrase
  · rw [if_neg bare, List.forall_mem_cons]
    exact ⟨phrase_commaSep clause, phrase_fromClause admitted⟩

theorem operand_importNamespace {default : Option Fragment} {name : Fragment}
    {specifier : String} (admitted : admits (.specifier specifier))
    (hDefault : ∀ f ∈ default, Operand admits f) (hName : Operand admits name) :
    Operand admits (importNamespace default name specifier) := by
  have star : Phrase admits (spaced [token "*", token "as", name]) := fun b => by
    simpa using ((Composed.word "as" (by decide)).andThen (hName b).operand).starred
  refine operand_statement (operand_keyword (by decide) ?_)
  rw [List.forall_mem_cons]
  refine ⟨?_, phrase_fromClause admitted⟩
  cases default with
  | none => exact star
  | some default => exact phrase_commaSep (by simpa using ⟨(hDefault default rfl).phrase, star⟩)

theorem operand_exportAll {specifier : String} (admitted : admits (.specifier specifier)) :
    Operand admits (statement (spaced (token "export" :: token "*" :: fromClause specifier))) := by
  refine operand_statement fun b => ?_
  have source : Composed admits .operand b ((spaced (fromClause specifier)).lexemes b) :=
    operand_keyword (by decide) (by simpa using (operand_quoted admitted).phrase) b
  simpa [fromClause] using (Composed.word "export" (by decide)).andThen source.starred

theorem operand_binary {left right : Expression} {operator : BinaryOperator} {l r : Fragment}
    (hLeft : Operand admits l) (hRight : Operand admits r) :
    Operand admits (binary left operator right l r) := by
  have operands : Operand admits (binaryOperands left operator right l r).1 ∧
      Operand admits (binaryOperands left operator right l r).2 := by
    unfold binaryOperands
    dsimp only
    split
    · exact ⟨operand_parenIf hLeft, operand_atLeast hRight⟩
    · exact ⟨operand_atLeast hLeft, operand_parenIf hRight⟩
  obtain ⟨first, second⟩ := operands
  -- the comma and `instanceof` are no infix operators of the rules, a bare `in` has its own
  cases operator with
  | sequence =>
      exact operand_seq first (by
        simpa using ⟨(operand_token (by decide)).phrase, phrase_space, second.phrase⟩)
  | instanceOf =>
      exact operand_spaced first (by
        simpa using ⟨(operand_token (by decide)).phrase, second.phrase⟩)
  | isIn =>
      have bare := (first false).isIn (second false)
      intro b
      rw [binary, lexemes_containsIn]
      cases b
      · simpa [BinaryOperator.text] using bare
      · simpa [BinaryOperator.text] using bare.operand.paren
  | _ => exact operand_infixed (by decide) first second

theorem operand_unary {operator : UnaryOperator} {operand : Expression} {f : Fragment}
    (h : Operand admits f) : Operand admits (unary operator operand f) := by
  have argument : Operand admits (atLeast .prefixed operand f) := operand_atLeast h
  cases operator with
  | typeOf | void | delete =>
      exact operand_keyword (by decide) (by simpa using argument.phrase)
  | plus | minus | logicalNot | bitNot =>
      intro b
      simpa [unary, UnaryOperator.isWord] using
        Composed.prefixed (UnaryOperator.text _) (by decide) (argument b)

theorem operand_template {tag : Option Fragment} {parts : Node (.list .templatePart)}
    (admitted : admits (.template parts)) (hTag : ∀ f ∈ tag, Operand admits f)
    (h : ∀ f, .code f ∈ parts.fragment → Operand admits f) :
    Operand admits (template tag parts.fragment) := by
  have untagged : Operand admits (template none parts.fragment) := fun b =>
    .template admitted fun f member => h f member b
  cases tag with
  | none => exact untagged
  | some tag =>
      intro b
      simpa [template] using (hTag tag rfl b).andThen (untagged b).operand

end Fragment

end EcmaScribe
