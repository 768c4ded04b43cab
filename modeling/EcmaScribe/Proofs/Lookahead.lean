/-
# EcmaScribe.Proofs.Lookahead -- no place starts with what the grammar bars from it

The grammar looks a token or two ahead: an expression statement may not start with `{`,
`function`, `class`, `async function` or `let [`, and arrow bodies, default exports and loop
heads have restrictions of their own.  Parentheses are put by what a fragment leads with, so
two things have to be shown.

* Every expression is announced: what it leads with is what its tokens are taken for
  (`Node.announced`), if its variables have names that are not reserved.
* Every place respects its restriction (`Node.restrictions`).
-/
import EcmaScribe.Proofs.Fragment.Leading
import EcmaScribe.Proofs.Tree.Composed

namespace EcmaScribe

set_option autoImplicit false

open Text

variable {k : IdentifierClass} {spelling : Spelling}

/-! ## Lexemes that start an expression -/

/-- The names of variables are not reserved; all other text is arbitrary. -/
def Leaf.Unreserved (k : IdentifierClass) : Leaf → Prop
  | name role text => role.isVariable = true → k.IsIdentifier text
  | key _ | number _ | string _ | specifier _ | regExp .. | directive _ | template _ => True

/-- Spelling keeps apart the names of variables and words. -/
theorem variableName_eq_iff {name word : String} (isName : k.isName name.toList = true)
    (ascii : ∀ c ∈ word.toList, isAscii c = true ∧ c ≠ '\\') :
    spelling.variableName name.toList = word.toList ↔ name = word := by
  cases spelling with
  | plain => exact String.toList_inj
  | webSafe =>
      have plain : ∀ c ∈ name.toList, IsPlain c := fun c member =>
        isPlain_of_continues (IdentifierClass.continues_of_isName isName c member)
      show sanitizeName name.toList = word.toList ↔ name = word
      rw [sanitizeName_eq plain, flatMap_nameChar_eq_iff ascii, String.toList_inj]

/-- The name of a variable is spelled like no keyword and no punctuator. -/
theorem variableName_ne {name : String} (h : k.IsIdentifier name) {word : String}
    (fixed : isNoVariable word = true) (ascii : ∀ c ∈ word.toList, isAscii c = true ∧ c ≠ '\\') :
    spelling.variableName name.toList ≠ word.toList := by
  intro same
  have named := (variableName_eq_iff h.1 ascii).1 same
  exact h.ne fixed (by rw [named])

namespace Fragment

theorem announced_name {role : NameRole} (isVariable : role.isVariable = true) {name : String}
    (h : k.IsIdentifier name) : Announced spelling (.lexeme (.name role name)) := by
  have spelled : (Lexeme.name role name).spell spelling =
      .text (spelling.variableName name.toList) := by
    simp [Lexeme.spell, isVariable]
  refine announced_lexeme ?_ ?_
  · have nonempty : name ≠ "" := by
      rintro rfl
      cases h.1
    simpa [Lexeme.isBlank] using nonempty
  · rw [spelled, Leading.ofTokens_singleton]
    · simp only [Lexeme.isLet, isVariable, Bool.true_and]
      congr 1
      exact decide_eq_decide.2 (variableName_eq_iff h.1 (by decide))
    · intro word hazard same
      have reserved : ∀ word ∈ ["\x7b", "function", "class"], isNoVariable word = true ∧
          ∀ c ∈ word.toList, isAscii c = true ∧ c ≠ '\\' := by decide
      obtain ⟨fixed, ascii⟩ := reserved word hazard
      exact variableName_ne h fixed ascii same

/-- A string ends in its delimiter. -/
theorem announced_string (value : String) : Announced spelling (.lexeme (.string value)) := by
  refine announced_lexeme rfl ?_
  have ends : ∃ c, (spelling.literalText (stringLiteral value.toList)).getLast? = some c ∧
      (c = '\x27' ∨ c = '\x22') := by
    have last := getLast?_stringLiteral value.toList
    have kind := delimiterFor_cases value.toList
    cases spelling with
    | plain => exact ⟨_, last, kind⟩
    | webSafe =>
        have foreign := delimiter_foreign kind
        exact ⟨_, getLast?_sanitize foreign.1 foreign.2.1 last, kind⟩
  obtain ⟨c, last, kind⟩ := ends
  have differs : ∀ word ∈ ["\x7b", "function", "class", "let"],
      spelling.literalText (stringLiteral value.toList) ≠ word.toList := by
    intro word hazard same
    have table : ∀ word ∈ ["\x7b", "function", "class", "let"],
        word.toList.getLast? ≠ some '\x27' ∧ word.toList.getLast? ≠ some '\x22' := by decide
    rw [same] at last
    rcases kind with rfl | rfl
    · exact (table word hazard).1 last
    · exact (table word hazard).2 last
  show Leading.ofTokens [.text (spelling.literalText (stringLiteral value.toList))] = _
  rw [Leading.ofTokens_singleton fun word hazard => differs word (by
    simp only [List.mem_cons, List.not_mem_nil, or_false] at hazard ⊢
    tauto)]
  rw [decide_eq_false (differs "let" (by simp))]
  rfl

end Fragment

namespace Node

open Fragment

/-! ## Expressions -/

/-- An object of which the name `let` is all that is written is the variable. -/
theorem isBareLet_of_fragment {object : Node .subject} {role : NameRole}
    (written : object.fragment = .lexeme (.name role "let")) : isBareLet object = true := by
  cases object with
  | superObject => cases written
  | subject expression =>
      cases expression with
      | identifier name =>
          cases name
          cases written
          rfl
      | boolean value => cases value <;> cases written
      | classExpression _ heritage _ => cases heritage <;> cases written
      | computedMember base key =>
          have member : Fragment.computedMember base base.fragment key.fragment =
              .lexeme (.name role "let") := written
          unfold Fragment.computedMember markedIf at member
          split at member <;> cases member
      | binary _ operator _ => cases operator <;> cases written
      | new _ arguments => cases arguments <;> cases written
      | template tag _ => cases tag <;> cases written
      | unary operator _ => cases operator <;> cases written
      | update leading _ _ => cases leading <;> cases written
      | «yield» value => cases value <;> cases written
      | _ => cases written

theorem announced_computedMember {object : Node .subject} {key : Fragment}
    (h : Announced spelling object.fragment) :
    Announced spelling (Fragment.computedMember object object.fragment key) := by
  unfold Fragment.computedMember markedIf
  split
  · rename_i bare
    -- the rule marks what a reader takes for a declaration
    cases object with
    | superObject => cases bare
    | subject expression =>
        cases expression with
        | identifier name =>
            cases name with
            | usedName name =>
                obtain rfl : name = "let" := by simpa [isBareLet] using bare
                exact announced_bareLet key
        | _ => cases bare
  · rename_i noLet
    refine (announced_parenIf h _).bracketed (fun l same => ?_) key
    by_contra isLet
    cases l with
    | name role text =>
        obtain ⟨-, rfl⟩ : role.isVariable = true ∧ text = "let" := by
          simpa [Lexeme.isLet] using isLet
        unfold parenIf at same
        split at same
        · cases same
        · exact noLet (isBareLet_of_fragment same)
    | _ => exact isLet rfl

/-- Parameters are written in parentheses. -/
theorem exists_paren_of_parameters (params : Node .parameters) :
    ∃ f, params.fragment = .paren f := by
  cases params
  exact ⟨_, rfl⟩

/-- An arrow function writes its parameters in parentheses, or a sole name. -/
theorem announced_arrowOf {params : Node .parameters}
    (unreserved : ∀ leaf ∈ params.leaves, leaf.Unreserved k) (isAsync : Bool) (body : Fragment) :
    Announced spelling (.seq (asyncHead isAsync ++
      [Fragment.spaced [arrowParameters params params.fragment, token "=>", body]])) := by
  unfold arrowParameters
  cases sole : soleName? params with
  | none =>
      obtain ⟨f, paren⟩ := exists_paren_of_parameters params
      rw [paren]
      have starts (b : Bool) : ((Fragment.paren f).lexemes b).head? = Option.some (.verbatim "(") := by
        simp
      exact announced_arrow (announced_paren f) starts rfl isAsync body
  | some name =>
      have isIdentifier : k.IsIdentifier name := by
        rw [eq_of_soleName? sole] at unreserved
        exact unreserved (.name .bound name) (List.mem_singleton_self _) rfl
      refine announced_arrow (announced_name rfl isIdentifier)
        (fun b => by rw [lexemes_lexeme, List.head?_cons]) ?_ isAsync body
      have bracket : Token.text (spelling.variableName name.toList) ≠ .text "[".toList :=
        fun same => variableName_ne isIdentifier (by decide) (by decide) (Token.text.inj same)
      have function : Token.text (spelling.variableName name.toList) ≠ .text "function".toList :=
        fun same => variableName_ne isIdentifier (by decide) (by decide) (Token.text.inj same)
      show Leading.isHarmless (.text (spelling.variableName name.toList)) = true
      simp only [Leading.isHarmless, bracket, function, ne_eq, not_false_eq_true, decide_true,
        Bool.and_self]

end Node

/-- What is proved of a tree that may start an expression. -/
def Category.Announces (spelling : Spelling) : (c : Category) → c.Output → Prop
  | .expression, f | .subject, f | .simpleTarget, f | .target, f | .usedName, f
  | .assignedName, f => Fragment.Announced spelling f
  | .option c, f => ∀ g ∈ f, c.Announces spelling g
  | _, _ => True

namespace Node

open Fragment

/-- **What an expression leads with is what its tokens are taken for.** -/
theorem announced {c : Category} (n : Node c) (h : ∀ leaf ∈ n.leaves, leaf.Unreserved k) :
    c.Announces spelling n.fragment := by
  induction n with
  | none => exact fun f member => by cases member
  | some child ih =>
      intro f member
      cases member
      exact ih (forall_child h)
  | usedName name => exact announced_name rfl (h _ (List.mem_singleton_self _) rfl)
  | assignedName name => exact announced_name rfl (h _ (List.mem_singleton_self _) rfl)
  | array elements =>
      exact announced_bracket _
  | arrow isAsync params body => exact announced_arrowOf (forall_two h).1 isAsync _
  | assign target value ihTarget => exact (ihTarget (forall_two h).1).spaced rfl _
  | await operand ih =>
      exact announced_spaced_headed (by decide) (fun _ => rfl) fun b => by
        simpa using (announced_atLeast (ih (forall_child h)) .prefixed operand).nonempty b
  | binary left operator right ihLeft =>
      exact announced_binary (ihLeft (forall_two h).1) left operator right _
  | call callee arguments ihCallee =>
      exact (announced_parenIf (ihCallee (forall_two h).1) _).called _
  | classExpression name heritage elements =>
      cases heritage <;> exact announced_class _ _ _
  | compoundAssign target operator value ihTarget =>
      exact (ihTarget (forall_two h).1).spaced (by cases operator <;> rfl) _
  | computedMember base key ihBase => exact announced_computedMember (ihBase (forall_two h).1)
  | conditional test consequent alternate ihTest =>
      exact (announced_atLeast (ihTest (forall_three h).1) _ _).spaced rfl _
  | functionExpression isAsync isGenerator name params body =>
      obtain ⟨f, paren⟩ := exists_paren_of_parameters params
      have written (b : Bool) : params.fragment.lexemes b ≠ [] := by simp [paren]
      exact announced_function isAsync isGenerator _ written _
  | identifier name ih => exact ih (forall_child h)
  | boolean value => cases value <;> exact announced_token (by decide) rfl
  | infinity | number => exact announced_lexeme rfl rfl
  | null | thisValue => exact announced_token (by decide) rfl
  | regExp pattern flags => exact announced_lexeme rfl rfl
  | string value => exact announced_string value
  | new callee arguments ihCallee =>
      have head : Announced spelling (Fragment.spaced [token "new",
          parenIf (callee.hasCallOnLeftSpine || callee.precedence < .member) callee.fragment]) :=
        announced_spaced_headed (by decide) (fun _ => rfl) fun b => by
          simpa using (announced_parenIf (ihCallee (forall_two h).1) _).nonempty b
      cases arguments with
      | nil => exact head
      | cons => exact head.called _
  | newTarget => exact announced_seq_headed (by decide) (fun _ => rfl) fun b => by simp
  | object properties => exact announced_objectBraces _
  | staticMember base property ih => exact announced_staticMember (ih (forall_child h)) base property
  | template tag parts ihTag =>
      cases tag with
      | none => exact announced_template _
      | some tag =>
          have first := ihTag (forall_two h).1 _ rfl
          exact (announced_atLeast first .call tag).seq rfl _
  | unary operator operand ih => exact announced_unary (ih (forall_child h)) operator operand
  | update leading operator operand ih =>
      have first := ih (forall_child h)
      cases leading with
      | true =>
          refine announced_seq_headed (by cases operator <;> decide)
            (by cases operator <;> exact fun _ => rfl) fun b => ?_
          simpa using first.nonempty b
      | false => exact first.seq (by cases operator <;> rfl) []
  | «yield» value ih =>
      cases value with
      | none => exact announced_token (by decide) rfl
      | some value =>
          have first := ih (forall_child h) _ rfl
          exact announced_spaced_headed (by decide) (fun _ => rfl) fun b => by
            simpa using (announced_atLeast first .assignment value).nonempty b
  | yieldFrom source =>
      exact announced_seq_headed (by decide) (fun _ => rfl) fun b => by simp
  | superObject => exact announced_token (by decide) rfl
  | subject expression ih => exact ih (forall_child h)
  | targetName name ih => exact ih (forall_child h)
  | staticMemberTarget base property ih =>
      exact announced_staticMember (ih (forall_child h)) base property
  | computedMemberTarget base key ihBase => exact announced_computedMember (ihBase (forall_two h).1)
  | arrayTarget elements rest => exact announced_bracket _
  | objectTarget properties => exact announced_objectBraces _
  | simpleTarget target ih => exact ih (forall_child h)
  | _ => trivial

end Node

/-! ## Restricted places -/

/-- What is written in a place, and the starts that the grammar bars from it. -/
structure Restriction where
  place : Fragment
  barred : List (List String)

/-- What is written in the place, in whatever context, starts with nothing that is barred. -/
def Restriction.Respected (spelling : Spelling) (r : Restriction) : Prop :=
  ∀ b, ∀ start ∈ r.barred, Token.startWith start (r.place.writtenTokens spelling b) = false

/-- The restriction of the place that a node stands for.  Statements with a loop head count as
places themselves. -/
def Node.restrictions {c : Category} : Node c → List Restriction
  | n@(evaluate _) =>
      [⟨n.fragment, [["\x7b"], ["function"], ["class"], ["async", "function"], ["let", "["]]⟩]
  | n@(arrowResult _) => [⟨n.fragment, [["\x7b"]]⟩]
  | n@(defaultExpression _) => [⟨n.fragment, [["function"], ["class"], ["async", "function"]]⟩]
  | n@(forOf (loopTarget _) _ _) => [⟨n.fragment, [["for", "(", "let"]]⟩]
  | n@(forIn (loopTarget _) _ _) => [⟨n.fragment, [["for", "(", "let", "["]]⟩]
  | n@(forLoop (some (initExpression _)) _ _ _) => [⟨n.fragment, [["for", "(", "let", "["]]⟩]
  | _ => []

namespace Fragment

/-- Parentheses around what leads with a hazard leave none, whatever harmless comes after. -/
theorem Announced.flag_parenIf {f : Fragment} (h : Announced spelling f) (flag : Leading → Bool)
    (ofNone : flag .none = false) (b : Bool) (more : List Token)
    (harmless : ∀ y ∈ more.head?, Leading.isHarmless y = true) :
    flag (Leading.ofTokens
      ((parenIf (flag f.leading) f).writtenTokens spelling b ++ more)) = false := by
  have first := announced_parenIf h (flag f.leading)
  have nonempty : (parenIf (flag f.leading) f).writtenTokens spelling b ≠ [] := by
    simpa [writtenTokens_eq] using first.nonempty b
  rw [Leading.ofTokens_append nonempty harmless]
  rcases first.ofTokens_cases b with leads | none
  · rw [leads]
    cases hazard : flag f.leading with
    | true => exact ofNone
    | false => exact hazard
  · rw [none, ofNone]

theorem writtenTokens_statement (f : Fragment) (b : Bool) :
    (statement f).writtenTokens spelling b = f.writtenTokens spelling b ++ [.text [';']] := by
  rw [writtenTokens_eq, writtenTokens_eq, lexemes_statement, List.map_append]
  rfl

theorem lexemes_loopOver (f right : Fragment) (text : String) :
    (spaced [f, token text, right]).lexemes false =
      f.lexemes false ++ .verbatim text :: right.lexemes false := by
  simp

theorem lexemes_loopInit (f : Fragment) (rest : List Fragment) :
    (seq (noIn f :: token ";" :: rest)).lexemes false =
      f.lexemes true ++ .verbatim ";" :: rest.flatMap (lexemes false) := by
  simp

/-- The head of a loop leads with no hazard either. -/
theorem Announced.flag_loop {f : Fragment} (h : Announced spelling f) (flag : Leading → Bool)
    (ofNone : flag .none = false) {head : Fragment} {inHead : Bool} (text : String)
    {rest : List Lexeme} (inside : head.lexemes false =
      (parenIf (flag f.leading) f).lexemes inHead ++ .verbatim text :: rest)
    (harmless : Leading.isHarmless (.text text.toList) = true) (body : Fragment) (b : Bool) :
    ∃ tokens, (Fragment.spaced [token "for", paren head, body]).writtenTokens spelling b =
      .text "for".toList :: .text "(".toList :: tokens ∧ flag (Leading.ofTokens tokens) = false := by
  have safe := h.flag_parenIf flag ofNone inHead
    (.text text.toList :: (rest ++ .verbatim ")" :: body.lexemes b).map (Lexeme.spell spelling))
    fun y first => by
      cases first
      exact harmless
  refine ⟨_, ?_, safe⟩
  simp [writtenTokens_eq, inside, Lexeme.spell]

end Fragment

namespace Node

open Fragment

/-- What a reader does not take for a function or a class starts like none. -/
theorem startWith_function_or_class {tokens : List Token}
    (h : (Leading.ofTokens tokens).startsWithFunctionOrClass = false) :
    ∀ start ∈ [["function"], ["class"], ["async", "function"]],
      Token.startWith start tokens = false := by
  simp only [Leading.ofTokens, Bool.or_eq_false_iff] at h
  simp [h.1.1, h.1.2, h.2]

/-- Nor does what may be an expression statement start like a block or a declaration. -/
theorem startWith_statementHazard {tokens : List Token}
    (h : (Leading.ofTokens tokens).isStatementHazard = false) :
    ∀ start ∈ [["\x7b"], ["function"], ["class"], ["async", "function"], ["let", "["]],
      Token.startWith start tokens = false := by
  simp only [Leading.isStatementHazard, Bool.or_eq_false_iff] at h
  obtain ⟨⟨curly, bracket⟩, functionOrClass⟩ := h
  have others := startWith_function_or_class functionOrClass
  simp only [Leading.ofTokens] at curly bracket
  simp only [List.forall_mem_cons] at others ⊢
  exact ⟨curly, others.1, others.2.1, others.2.2.1, bracket, by simp⟩

/-- **Every place respects its restriction.** -/
theorem respected_of_mem_restrictions {c : Category} (n : Node c)
    (h : ∀ leaf ∈ n.leaves, leaf.Unreserved k) :
    ∀ r ∈ n.restrictions, r.Respected spelling := by
  intro r member
  cases n with
  | evaluate expression =>
      obtain rfl := List.mem_singleton.1 member
      intro b
      have first : Announced spelling expression.fragment := announced expression (forall_child h)
      have safe := first.flag_parenIf Leading.isStatementHazard rfl b [.text [';']] fun y last => by
        cases last
        rfl
      rw [← writtenTokens_statement] at safe
      exact startWith_statementHazard safe
  | arrowResult expression =>
      obtain rfl := List.mem_singleton.1 member
      intro b
      have first : Announced spelling (atLeast .assignment expression expression.fragment) :=
        announced_atLeast (announced expression (forall_child h)) _ _
      have safe := first.flag_parenIf Leading.startsWithCurly rfl b [] (by simp)
      rw [List.append_nil] at safe
      exact List.forall_mem_singleton.2 safe
  | defaultExpression expression =>
      obtain rfl := List.mem_singleton.1 member
      intro b
      have first : Announced spelling (atLeast .assignment expression expression.fragment) :=
        announced_atLeast (announced expression (forall_child h)) _ _
      have safe := first.flag_parenIf Leading.startsWithFunctionOrClass rfl b [.text [';']]
        fun y last => by
          cases last
          rfl
      rw [← writtenTokens_statement] at safe
      exact startWith_function_or_class safe
  | forOf left right body =>
      cases left with
      | loopVariables declaration => cases member
      | loopTarget target =>
          obtain rfl := List.mem_singleton.1 member
          intro b
          have first : Announced spelling target.fragment :=
            announced target (forall_child (forall_three h).1)
          obtain ⟨tokens, written, safe⟩ := first.flag_loop Leading.startsWithLet rfl "of"
            (lexemes_loopOver _ _ _) rfl body.fragment b
          exact List.forall_mem_singleton.2 ((congrArg _ written).trans safe)
  | forIn left right body =>
      cases left with
      | loopVariables declaration => cases member
      | loopTarget target =>
          obtain rfl := List.mem_singleton.1 member
          intro b
          have first : Announced spelling target.fragment :=
            announced target (forall_child (forall_three h).1)
          obtain ⟨tokens, written, safe⟩ := first.flag_loop Leading.startsWithLetBracket rfl "in"
            (lexemes_loopOver _ _ _) rfl body.fragment b
          exact List.forall_mem_singleton.2 ((congrArg _ written).trans safe)
  | forLoop init test advance body =>
      cases init with
      | none => cases member
      | some init =>
          cases init with
          | initVariables declaration => cases member
          | initExpression expression =>
              obtain rfl := List.mem_singleton.1 member
              intro b
              have first : Announced spelling expression.fragment :=
                announced expression (forall_child (forall_child (forall_four h).1))
              obtain ⟨tokens, written, safe⟩ := first.flag_loop Leading.startsWithLetBracket rfl ";"
                (lexemes_loopInit _ _) rfl body.fragment b
              exact List.forall_mem_singleton.2 ((congrArg _ written).trans safe)
  | _ => cases member

/-- **The lookahead of the grammar is respected.**  Under either spelling an expression leads
with exactly what its tokens are taken for, and no place in a program starts with what the
grammar bars from it. -/
theorem lookahead_respected (spelling : Spelling) :
    (∀ expression : Expression, (∀ leaf ∈ expression.leaves, leaf.Unreserved k) →
      expression.fragment.leading =
        Leading.ofTokens (expression.fragment.writtenTokens spelling false)) ∧
    ∀ program : Program, (∀ leaf ∈ program.leaves, leaf.Unreserved k) →
      ∀ r ∈ program.collect restrictions, r.Respected spelling := by
  refine ⟨fun expression unreserved => ?_, fun program unreserved => ?_⟩
  · have first : Announced spelling expression.fragment := announced expression unreserved
    exact first.leading_eq
  · exact forall_mem_collect respected_of_mem_restrictions program unreserved

/-- The member `let[a]`. -/
def bracketedLet : Expression :=
  .computedMember (.subject (.identifier (.usedName "let"))) (.identifier (.usedName "a"))

/-- A class by default, an assignment to `let[a]` of a function that returns an object, and a
loop that assigns to `let`. -/
def restrictedPlaces : Program :=
  .moduleRoot .nil
    (.cons (.exportDefault (.defaultExpression (.classExpression .none .none .nil)))
    (.cons (.itemStatement (.evaluate (.assign
      (.simpleTarget (.computedMemberTarget (.subject (.identifier (.usedName "let")))
        (.identifier (.usedName "a"))))
      (.arrow false (.parameters .nil .none) (.arrowResult (.object .nil))))))
    (.cons (.itemStatement (.forOf (.loopTarget (.simpleTarget (.targetName (.assignedName "let"))))
      bracketedLet .empty))
    .nil)))

/-- Each of its four places would start with what is barred but for the parentheses. -/
theorem lookahead_restrictedPlaces :
    (bracketedLet.fragment.leading.startsWithLetBracket = true ∧
      bracketedLet.fragment.leading =
        Leading.ofTokens (bracketedLet.fragment.writtenTokens .webSafe false)) ∧
    (restrictedPlaces.collect restrictions).length = 4 ∧
      ∀ r ∈ restrictedPlaces.collect restrictions, r.Respected .webSafe := by
  have identifier (name : String) (isName : IdentifierClass.ofTables.isName name.toList = true)
      (free : name ∉ reservedWords) (role : NameRole) :
      (Leaf.name role name).Unreserved .ofTables := fun _ => ⟨isName, free⟩
  have isLet (role : NameRole) := identifier "let" (by decide) (by decide) role
  have isA (role : NameRole) := identifier "a" (by decide) (by decide) role
  have member : ∀ leaf ∈ bracketedLet.leaves, leaf.Unreserved .ofTables := by
    show ∀ leaf ∈ [Leaf.name .used "let", .name .used "a"], leaf.Unreserved .ofTables
    simpa using ⟨isLet .used, isA .used⟩
  have places : ∀ leaf ∈ restrictedPlaces.leaves, leaf.Unreserved .ofTables := by
    show ∀ leaf ∈ [Leaf.name .used "let", .name .used "a", .name .assigned "let",
      .name .used "let", .name .used "a"], leaf.Unreserved .ofTables
    simpa using ⟨isLet .used, isA .used, isLet .assigned, isLet .used, isA .used⟩
  have respected := lookahead_respected (k := .ofTables) .webSafe
  exact ⟨⟨rfl, respected.1 bracketedLet member⟩, rfl, respected.2 restrictedPlaces places⟩

end Node

end EcmaScribe
