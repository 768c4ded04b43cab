/-
# EcmaScribe.Proofs.DanglingElse -- every `else` belongs to its own `if`

A statement may end in an `if` without an `else` (`Node.endsInBareIf`), and as the consequent of
an `if` with an `else` it would take that `else`.  Fragments tell of that ending exactly
(`missingElse_fragment`), so such a consequent is written in braces, and no other.

`ofStatement_concluded` is the induction over statements: a statement is read to its end, and of
what it has opened only `if`s stay open, and those only if it ends in one.  So whatever stands in
front of a statement with an `else`, its own `if` is found for it (`owners_of_mem_statements`).  No
layout changes what the reader finds (`BranchReader.run_of_kept`).
-/
import EcmaScribe.Proofs.Fragment.Branches
import EcmaScribe.Proofs.Lexical.Braces
import EcmaScribe.Proofs.Separation
import EcmaScribe.Proofs.Tree.Code
import EcmaScribe.Proofs.Tree.Statements

namespace EcmaScribe

set_option autoImplicit false

open Fragment

variable {k : IdentifierClass}

/-! ## Statements that end in a bare `if` -/

/-- Whether a statement ends in an `if` without an `else`. -/
def Node.endsInBareIf {c : Category} : Node c → Bool
  | .ifElse _ _ .none => true
  | .ifElse _ _ (.some alternate) => alternate.endsInBareIf
  | .labeled _ body | .whileLoop _ body | .forIn _ _ body | .forOf _ _ body | .forLoop _ _ _ body
  | .withObject _ body => body.endsInBareIf
  | _ => false

/-- What holds of a statement, also where it is optional. -/
def Category.OfStatement (p : Statement → Prop) : (c : Category) → Node c → Prop
  | .statement, s => p s
  | .option c, n => ∀ child, n = .some child → c.OfStatement p child
  | _, _ => True

namespace Fragment

theorem allBlank_append_single {f : Fragment} (written : f.isBlank = false) (fs : List Fragment) :
    allBlank (fs ++ [f]) = false := by
  induction fs with
  | nil => simp [allBlank, written]
  | cons g fs ih => simp [allBlank, ih]

/-- The last child decides, if it is written. -/
theorem missingElse_seq {f : Fragment} (written : f.isBlank = false) (fs : List Fragment) :
    (seq (fs ++ [f])).missingElse = f.missingElse := by
  have last : missingElseLast (fs ++ [f]) = f.missingElse := by
    induction fs with
    | nil => simp [missingElseLast, allBlank, written]
    | cons g fs ih => simp [missingElseLast, allBlank_append_single written, ih]
  rw [missingElse, last]

theorem missingElse_spaced {f : Fragment} (written : f.isBlank = false) (fs : List Fragment) :
    (spaced (fs ++ [f])).missingElse = f.missingElse := by
  cases fs with
  | nil => exact missingElse_seq written []
  | cons g fs =>
      have last := missingElse_seq written (g :: fs.flatMap (fun h => [space, h]) ++ [space])
      simpa [spaced] using last

theorem missingElse_statement (f : Fragment) : (statement f).missingElse = false :=
  (missingElse_seq (by simp [isBlank]) [f]).trans (by simp [missingElse])

theorem isBlank_block (fs : List Fragment) : (block fs).isBlank = false := by
  unfold block
  split <;> simp [isBlank, braceLines]

theorem missingElse_block (fs : List Fragment) : (block fs).missingElse = false := by
  unfold block
  split <;> simp [missingElse, braceLines]

theorem isBlank_spaced {f : Fragment} (written : f.isBlank = false) (fs : List Fragment) :
    (spaced (fs ++ [f])).isBlank = false := by
  have last : Within f (spaced (fs ++ [f])) := .spaced (by simp) .here
  exact last.isBlank written

/-- Words and heads in front of a block. -/
theorem missingElse_spaced_block (fs children : List Fragment) :
    (spaced (fs ++ [block children])).missingElse = false :=
  (missingElse_spaced (isBlank_block _) fs).trans (missingElse_block _)

theorem missingElse_function (isAsync isGenerator : Bool) (name : Option Fragment)
    (params : Fragment) (children : List Fragment) :
    (function isAsync isGenerator name params (block children)).missingElse = false := by
  have last := missingElse_seq (isBlank_block children) (asyncHead isAsync ++ token "function" ::
    generatorStar isGenerator ++ name.toList.flatMap (fun name => [space, name]) ++ [params, space])
  rw [missingElse_block] at last
  simpa [function] using last

theorem missingElse_class (name heritage : Option Fragment) (elements : List Fragment) :
    (class_ name heritage elements).missingElse = false :=
  missingElse_spaced_block (token "class" :: name.toList ++
    heritage.toList.flatMap fun f => [token "extends", f]) elements

end Fragment

namespace Node

/-- **A fragment ends with a missing `else`** if and only if its statement ends in an `if` that
has none. -/
theorem ofStatement_missingElse {c : Category} (n : Node c) :
    c.OfStatement (fun s => s.fragment.missingElse = s.endsInBareIf) n := by
  induction n with
  | some child ih =>
      intro s same
      cases same
      exact ih
  | none => intro s same; cases same
  | empty =>
      show Fragment.semicolon.missingElse = false
      simp [missingElse]
  | blockStatement body =>
      cases body with
      | block statements => exact missingElse_block _
  | breakTo | continueTo | debugger | doWhile | evaluate | returnValue | throw | declare =>
      exact missingElse_statement _
  | forIn left right body _ _ ih | forOf left right body _ _ ih =>
      exact (missingElse_spaced (isBlank_fragment body) [_, _]).trans ih
  | forLoop init test advance body _ _ _ ih =>
      exact (missingElse_spaced (isBlank_fragment body) [_, _]).trans ih
  | whileLoop test body _ ih | withObject test body _ ih =>
      exact (missingElse_spaced (isBlank_fragment body) [_, _]).trans ih
  | labeled label body ih =>
      exact (missingElse_seq (isBlank_fragment body) [_, _, _]).trans ih
  | ifElse test consequent alternate _ _ ih =>
      cases alternate with
      | none =>
          show (Fragment.marked .endsWithMissingElse _).missingElse = true
          simp [missingElse]
      | some alternate =>
          exact (missingElse_spaced (isBlank_fragment alternate) [_, _, _, _]).trans (ih _ rfl)
  | switch discriminant cases => exact missingElse_spaced_block [_, _] _
  | switchWithDefault discriminant before default after => exact missingElse_spaced_block [_, _] _
  | tryCatch body handler =>
      cases handler with
      | catchClause binding inner =>
          cases inner with
          | block statements =>
              exact (missingElse_spaced (isBlank_spaced (isBlank_block _) [_, _]) [_, _]).trans
                (missingElse_spaced_block [_, _] _)
  | tryFinally body handler finalizer =>
      cases finalizer with
      | block statements =>
          have last := missingElse_spaced_block (token "try" :: body.fragment ::
            handler.fragment.toList ++ [token "finally"]) statements.fragment
          show (spaced (token "try" :: body.fragment :: handler.fragment.toList ++
            [token "finally", Fragment.block statements.fragment])).missingElse = false
          simpa using last
  | functionStatement declaration =>
      cases declaration with
      | functionDeclaration isAsync isGenerator name params body =>
          cases body with
          | functionBody directives statements => exact missingElse_function _ _ _ _ _
  | classStatement declaration =>
      cases declaration with
      | classDeclaration name heritage elements =>
          cases heritage <;> exact missingElse_class _ _ _
  | _ => trivial

end Node

/-! ## Statements are read to their ends -/

namespace Fragment

variable {bare : Bool}

theorem concluded_statement {f : Fragment} (plain : Plain statementTexts fun b => f.lexemes b)
    (b : Bool) : Concluded bare ((statement f).lexemes b) := by
  rw [lexemes_statement]
  exact .semicolon (plain.avoids b)

/-- What a fragment ends in. -/
def EndsInBrace (f : Fragment) : Prop := ∀ b, ∃ l, f.lexemes b = l ++ [.verbatim "\x7d"]

theorem endsInBrace_block (children : List Fragment) : EndsInBrace (block children) := by
  intro b
  rw [lexemes_block]
  split
  · exact ⟨[.verbatim "\x7b"], rfl⟩
  · exact ⟨_, rfl⟩

theorem EndsInBrace.seq {f : Fragment} (h : EndsInBrace f) (fs : List Fragment) :
    EndsInBrace (.seq (fs ++ [f])) := by
  intro b
  obtain ⟨l, last⟩ := h b
  exact ⟨fs.flatMap (lexemes b) ++ l, by simp [last]⟩

theorem EndsInBrace.spaced {f : Fragment} (h : EndsInBrace f) (fs : List Fragment) :
    EndsInBrace (spaced (fs ++ [f])) := by
  intro b
  obtain ⟨l, last⟩ := h b
  cases fs with
  | nil => exact ⟨l, by simp [last]⟩
  | cons g fs => exact ⟨g.lexemes b ++ fs.flatMap (lexemes b) ++ l, by simp [last]⟩

theorem endsInBrace_function (isAsync isGenerator : Bool) (name : Option Fragment)
    (params : Fragment) (children : List Fragment) :
    EndsInBrace (function isAsync isGenerator name params (block children)) := by
  have last := (endsInBrace_block children).seq (asyncHead isAsync ++ token "function" ::
    generatorStar isGenerator ++ name.toList.flatMap (fun name => [space, name]) ++ [params, space])
  simpa [function] using last

theorem endsInBrace_class (name heritage : Option Fragment) (elements : List Fragment) :
    EndsInBrace (class_ name heritage elements) :=
  (endsInBrace_block elements).spaced (token "class" :: name.toList ++
    heritage.toList.flatMap fun f => [token "extends", f])

theorem concluded_of_code {f : Fragment} (code : Code (Leaf.Tame statementTexts) [f])
    (ends : EndsInBrace f) (b : Bool) : Concluded bare (f.lexemes b) := by
  have calm := (code.plain_single (List.Subset.refl _)).avoids b
  obtain ⟨l, whole⟩ := ends b
  rw [whole] at calm ⊢
  exact .brace calm

/-- A loop or the like: a word, its head, and a body that may end in a bare `if`. -/
theorem concluded_headed {word : String} (head : Transparent [.verbatim word])
    {inner body : Fragment} {b : Bool} (balanced : Balanced (inner.lexemes false))
    (h : Concluded bare (body.lexemes b)) :
    Concluded bare ((spaced [token word, .paren inner, body]).lexemes b) := by
  have whole := h.after (head.append (Transparent.paren balanced))
  simpa using whole

end Fragment

namespace Node

theorem missingElse_fragment (s : Statement) : s.fragment.missingElse = s.endsInBareIf :=
  s.ofStatement_missingElse

theorem balanced_expression {x : Expression}
    (tame : ∀ leaf ∈ x.leaves, leaf.Tame statementTexts) : Balanced (x.fragment.lexemes false) := by
  have inner : Operand (Leaf.Tame statementTexts) x.fragment := x.composed tame
  exact inner.phrase.balanced false

/-- A consequent in front of an `else`: in braces, if it would take the `else` otherwise. -/
def consequentLexemes (consequent : Statement) (b : Bool) : List Lexeme :=
  if consequent.endsInBareIf then
    .verbatim "\x7b" :: consequent.fragment.lexemes false ++ [.verbatim "\x7d"]
  else consequent.fragment.lexemes b

/-- What is written in front of an `else`. -/
def branchLexemes (test : Expression) (consequent : Statement) (b : Bool) : List Lexeme :=
  .verbatim "if" :: (.verbatim "(" :: test.fragment.lexemes false ++ [.verbatim ")"]) ++
    consequent.consequentLexemes b

theorem lexemes_fork (test : Expression) (consequent alternate : Statement) (b : Bool) :
    (ifElse test consequent (.some alternate)).fragment.lexemes b =
      branchLexemes test consequent b ++ .verbatim "else" :: alternate.fragment.lexemes b := by
  have inBraces : (Fragment.block [consequent.fragment]).lexemes b =
      .verbatim "\x7b" :: consequent.fragment.lexemes false ++ [.verbatim "\x7d"] := by
    simp [lexemes_block, lexemes_lines, allBlank, isBlank_fragment]
  show (spaced [token "if", .paren test.fragment,
    if consequent.fragment.missingElse then Fragment.block [consequent.fragment]
      else consequent.fragment, token "else", alternate.fragment]).lexemes b = _
  rw [missingElse_fragment]
  unfold branchLexemes consequentLexemes
  cases consequent.endsInBareIf with
  | true => simp [inBraces]
  | false => simp

theorem concluded_consequent {consequent : Statement}
    (balanced : Balanced (consequent.fragment.lexemes false))
    (h : ∀ b, Concluded consequent.endsInBareIf (consequent.fragment.lexemes b)) (b : Bool) :
    Concluded false (consequent.consequentLexemes b) := by
  unfold consequentLexemes
  split
  · exact .brace balanced.brace
  · rename_i complete
    rw [Bool.not_eq_true] at complete
    exact complete ▸ h b

/-- **A statement is read to its end.** -/
theorem ofStatement_concluded {c : Category} (n : Node c) :
    c.OfStatement (fun s => (∀ leaf ∈ s.leaves, leaf.Tame statementTexts) → ∀ b,
      Concluded s.endsInBareIf (s.fragment.lexemes b)) n := by
  have plain {f : Fragment} (h : Code (Leaf.Tame statementTexts) [f]) :
      Fragment.Plain statementTexts fun b => f.lexemes b := h.plain_single (List.Subset.refl _)
  have keyword {text : String} (free : text ∉ structuralTexts) : Transparent [.verbatim text] :=
    .token free
  induction n with
  | some child ih =>
      intro s same
      cases same
      exact ih
  | none => intro s same; cases same
  -- statements that end in a semicolon
  | breakTo label | continueTo label =>
      intro h
      refine concluded_statement (plain ?_)
      cases label with
      | none => exact .seq (.word _ (by decide))
      | some label => exact .prefixed (by decide) (.name (h _ (List.mem_singleton_self _)))
  | debugger => intro h; exact concluded_statement (plain (.word _ (by decide)))
  | doWhile body test ihBody =>
      intro h b
      obtain ⟨hBody, hTest⟩ := forall_two h
      show Concluded false ((statement (spaced [token "do", body.fragment, token "while",
        .paren test.fragment])).lexemes b)
      simpa using (ihBody hBody b).doWhile (balanced_expression hTest)
  | empty =>
      intro h b
      show Concluded _ (Fragment.semicolon.lexemes b)
      simpa using Concluded.semicolon (l := []) .nil
  | evaluate expression =>
      intro h
      have code : Code (Leaf.Tame statementTexts) [expression.fragment] :=
        expression.code (forall_child h)
      have inner : Operand (Leaf.Tame statementTexts) expression.fragment :=
        expression.composed (forall_child h)
      exact concluded_statement (plain (code.parenIf _ inner.phrase))
  | returnValue value =>
      intro h
      have code := value.code (forall_child h)
      refine concluded_statement (plain ?_)
      cases value with
      | none => exact .seq (.word _ (by decide))
      | some value => exact .prefixed (by decide) (code _ rfl)
  | throw value =>
      intro h
      have code : Code (Leaf.Tame statementTexts) [value.fragment] := value.code (forall_child h)
      exact concluded_statement (plain (.prefixed (by decide) code))
  | declare declaration =>
      intro h
      exact concluded_statement (plain_variableDeclaration (List.Subset.refl _) (forall_child h))
  -- statements that end in a brace
  | blockStatement body =>
      intro h
      have code : Code (Leaf.Tame statementTexts) [body.fragment] := body.code (forall_child h)
      cases body
      exact concluded_of_code code (endsInBrace_block _)
  | switch discriminant cases =>
      intro h
      obtain ⟨hDiscriminant, hCases⟩ := forall_two h
      have inner : Operand (Leaf.Tame statementTexts) discriminant.fragment :=
        discriminant.composed hDiscriminant
      have body : Code (Leaf.Tame statementTexts) [Fragment.block cases.fragment] :=
        .block (phrases (cases.composed hCases))
      exact concluded_of_code (.headed (by decide) inner.phrase body)
        ((endsInBrace_block _).spaced [_, _])
  | switchWithDefault discriminant before default after =>
      intro h
      obtain ⟨hDiscriminant, hBefore, hDefault, hAfter⟩ := forall_four h
      have inner : Operand (Leaf.Tame statementTexts) discriminant.fragment :=
        discriminant.composed hDiscriminant
      have last : Operand (Leaf.Tame statementTexts) default.fragment := default.composed hDefault
      have body : Code (Leaf.Tame statementTexts)
          [Fragment.block (before.fragment ++ default.fragment :: after.fragment)] :=
        .block (List.forall_mem_append.2 ⟨phrases (before.composed hBefore),
          List.forall_mem_cons.2 ⟨last.phrase, phrases (after.composed hAfter)⟩⟩)
      exact concluded_of_code (.headed (by decide) inner.phrase body)
        ((endsInBrace_block _).spaced [_, _])
  | tryCatch body handler =>
      intro h
      obtain ⟨hBody, hHandler⟩ := forall_two h
      have code : Code (Leaf.Tame statementTexts) [body.fragment] := body.code hBody
      have caught : Code (Leaf.Tame statementTexts) [handler.fragment] := handler.code hHandler
      have ends : EndsInBrace handler.fragment := by
        cases handler with
        | catchClause binding inner =>
            cases inner
            exact (endsInBrace_block _).spaced [_, _]
      exact concluded_of_code (.seq (.apart (.word "try" (by decide)) (.apart code caught)))
        (ends.spaced [_, _])
  | tryFinally body handler finalizer =>
      intro h
      obtain ⟨hBody, hHandler, hFinalizer⟩ := forall_three h
      have code : Code (Leaf.Tame statementTexts) [body.fragment] := body.code hBody
      have last : Code (Leaf.Tame statementTexts) [token "finally", .space, finalizer.fragment] :=
        .apart (.word _ (by decide)) (finalizer.code hFinalizer)
      have caught := handler.code hHandler
      have ends : EndsInBrace finalizer.fragment := by
        cases finalizer
        exact endsInBrace_block _
      cases handler with
      | none =>
          exact concluded_of_code
            (.seq (.apart (.word "try" (by decide)) (.apart code last))) (ends.spaced [_, _, _])
      | some handler =>
          exact concluded_of_code (.seq (.apart (.word "try" (by decide))
            (.apart code (.apart (caught _ rfl) last)))) (ends.spaced [_, _, _, _])
  | functionStatement declaration =>
      intro h
      have code : Code (Leaf.Tame statementTexts) [declaration.fragment] :=
        declaration.code (forall_child h)
      refine concluded_of_code code ?_
      cases declaration with
      | functionDeclaration isAsync isGenerator name params body =>
          cases body
          exact endsInBrace_function _ _ _ _ _
  | classStatement declaration =>
      intro h
      have code : Code (Leaf.Tame statementTexts) [declaration.fragment] :=
        declaration.code (forall_child h)
      refine concluded_of_code code ?_
      cases declaration with
      | classDeclaration name heritage elements =>
          cases heritage <;> exact endsInBrace_class _ _ _
  -- statements that end in another
  | forIn left right body _ _ ih =>
      intro h b
      obtain ⟨hLeft, hRight, hBody⟩ := forall_three h
      have first : Operand (Leaf.Tame statementTexts) left.fragment := left.composed hLeft
      have leftSide : Operand (Leaf.Tame statementTexts)
          (parenIf left.fragment.leading.startsWithLetBracket left.fragment) :=
        operand_parenIf first
      have isIn : (Lexeme.verbatim "in").Avoids bracketTexts := Lexeme.avoids_verbatim.2 (by decide)
      have head := (leftSide.phrase.balanced false).append
        ((balanced_expression hRight).cons isIn trivial)
      exact concluded_headed (keyword (by decide)) (by simpa using head) (ih hBody b)
  | forOf left right body _ _ ih =>
      intro h b
      obtain ⟨hLeft, hRight, hBody⟩ := forall_three h
      have first : Operand (Leaf.Tame statementTexts) left.fragment := left.composed hLeft
      have second : Operand (Leaf.Tame statementTexts) right.fragment := right.composed hRight
      have head : Operand (Leaf.Tame statementTexts) (spaced
          [parenIf left.fragment.leading.startsWithLet left.fragment, token "of",
            atLeast .assignment right right.fragment]) :=
        operand_spaced (operand_parenIf first) (by
          simpa using ⟨(operand_token (by decide)).phrase, (operand_atLeast second).phrase⟩)
      exact concluded_headed (keyword (by decide)) (head.phrase.balanced false) (ih hBody b)
  | forLoop init test advance body _ _ _ ih =>
      intro h b
      obtain ⟨hInit, hTest, hAdvance, hBody⟩ := forall_four h
      have first := init.composed hInit
      have head {f : Fragment} (hf : Phrase (Leaf.Tame statementTexts) f) :=
        (phrase_clauses hf (test.composed hTest) (advance.composed hAdvance)).balanced false
      cases init with
      | none => exact concluded_headed (keyword (by decide)) (head phrase_empty) (ih hBody b)
      | some init =>
          exact concluded_headed (keyword (by decide)) (head (operand_noIn (first _ rfl)).phrase)
            (ih hBody b)
  | whileLoop test body _ ih =>
      intro h b
      obtain ⟨hTest, hBody⟩ := forall_two h
      exact concluded_headed .repeats (balanced_expression hTest) (ih hBody b)
  | withObject scope body _ ih =>
      intro h b
      obtain ⟨hScope, hBody⟩ := forall_two h
      exact concluded_headed (keyword (by decide)) (balanced_expression hScope) (ih hBody b)
  | labeled label body ih =>
      intro h b
      have tame := forall_own h _ (List.mem_singleton_self _) _ rfl
      have name : Transparent [.name .label label] :=
        .word (tame.mono (by decide)).bracketing (tame.mono (by decide))
      have colon : Transparent [.verbatim ":"] := keyword (by decide)
      have head := name.append colon
      show Concluded body.endsInBareIf
        ((keyed (.lexeme (.name .label label)) body.fragment).lexemes b)
      simpa [keyed] using (ih (forall_child h) b).after head
  | ifElse test consequent alternate _ ihConsequent ihAlternate =>
      intro h b
      obtain ⟨hTest, hConsequent, hAlternate⟩ := forall_three h
      have head := balanced_expression hTest
      have body := ihConsequent hConsequent
      cases alternate with
      | none =>
          show Concluded true ((marked .endsWithMissingElse
            (spaced [token "if", .paren test.fragment, consequent.fragment])).lexemes b)
          simpa using (body b).branch head
      | some alternate =>
          rw [lexemes_fork]
          have inner : Operand (Leaf.Tame statementTexts) consequent.fragment :=
            consequent.composed hConsequent
          exact .fork head (concluded_consequent (inner.phrase.balanced false) body b)
            (ihAlternate _ rfl (forall_child hAlternate) b)
  | _ => trivial

end Node

/-! ## Layouts -/

namespace BranchReader

variable {r : BranchReader}

theorem read_blank {l : Lexeme} (blank : l.isBlank = true) : r.read l = r := by
  have role : l.branchRole = .blank := by
    cases l with
    | verbatim | name => rw [String.isEmpty_iff.1 blank]; rfl
    | chunk => exact if_pos blank
    | _ => cases blank
  simp [read, role]

/-- A semicolon changes nothing in front of a closing brace. -/
theorem read_dropped {l : Lexeme}
    (closes : l = .verbatim "\x7d" ∨ (l.isChunk = true ∧ l.isBlank = false)) :
    (r.read (.verbatim ";")).read l = r.read l := by
  rcases closes with rfl | ⟨chunk, written⟩
  · rfl
  · have role : l.branchRole = .templateText := by
      cases l with
      | chunk => exact if_neg (by simp [written])
      | _ => cases chunk
    simp only [read, role]
    rfl

/-- **What a layout keeps of a script** is read like the script. -/
theorem run_of_kept {spelling : Spelling} {layout : Layout} {all kept : List Lexeme}
    (h : Kept (Lexeme.writtenText spelling layout) all kept)
    (known : ∀ l ∈ all, l.Known (Leaf.Named k)) : r.run kept = r.run all := by
  induction h generalizing r with
  | nil => rfl
  | blank none h ih =>
      obtain ⟨-, others⟩ := List.forall_mem_cons.1 known
      rw [run_cons, read_blank (Lexeme.writtenText_eq_nil_iff.1 none), ih others]
  | keep _ h ih => exact ih (List.forall_mem_cons.1 known).2
  | @drop l all kept brace h ih =>
      obtain ⟨-, others⟩ := List.forall_mem_cons.1 known
      have closes := (others l (h.sublist.subset List.mem_cons_self)).closes_of_brace brace
      have rest := ih (r := r.read (.verbatim ";")) others
      rw [run_cons, read_dropped closes] at rest
      exact rest

end BranchReader

/-! ## Scripts -/

namespace Node

/-- The words that resolve the `else`s of a script, and the keywords that are operators. -/
def branchWords : List String := ["if", "else", "do", "while", "in"]

/-- The `else` of a statement is resolved to the `if` that the statement starts with, whatever is
written before. -/
theorem ownersIn_fork {test : Expression} {consequent alternate : Statement}
    (tame : ∀ leaf ∈ (ifElse test consequent (.some alternate)).leaves, leaf.Tame statementTexts)
    (before : List Lexeme) (b : Bool) (after : List Lexeme) :
    (ownersIn (before ++ (ifElse test consequent (.some alternate)).fragment.lexemes b ++ after))[
      elsesIn (before ++ branchLexemes test consequent b)]? =
        Option.some (Option.some (ifsIn before)) := by
  obtain ⟨hTest, hConsequent, -⟩ := forall_three tame
  have inner : Operand (Leaf.Tame statementTexts) consequent.fragment :=
    consequent.composed hConsequent
  have done := concluded_consequent (inner.phrase.balanced false)
    (consequent.ofStatement_concluded hConsequent) b
  have owner := BranchReader.owner_of_concluded (balanced_expression hTest) done
    (BranchReader.start.run before)
  have ifs : (BranchReader.start.run before).ifs = ifsIn before :=
    (BranchReader.ifs_run before).trans (Nat.zero_add _)
  have split : before ++ (ifElse test consequent (.some alternate)).fragment.lexemes b ++ after =
      (before ++ branchLexemes test consequent b) ++
        .verbatim "else" :: (alternate.fragment.lexemes b ++ after) := by
    rw [lexemes_fork]
    simp
  rw [split, ownersIn_else, BranchReader.run_append, branchLexemes, owner, ifs]

/-- **Every `else` belongs to its own `if`.**  A fragment tells whether its statement ends in an
`if` without an `else`, and in front of an `else` such a consequent stands in braces.  Wherever a
statement with an `else` is written, the reader resolves this `else` to the `if` that the
statement starts with.  It finds the same in the lexemes that any layout keeps. -/
theorem owners_of_mem_statements {program : Program}
    (names : ∀ leaf ∈ program.leaves, leaf.NamedBut k branchWords) :
    (∀ s : Statement, s.fragment.missingElse = s.endsInBareIf) ∧
    (∀ (test : Expression) (consequent alternate : Statement),
      ifElse test consequent (.some alternate) ∈ program.statements →
        (∀ b, (ifElse test consequent (.some alternate)).fragment.lexemes b =
          branchLexemes test consequent b ++ .verbatim "else" :: alternate.fragment.lexemes b) ∧
        (∃ before b after, program.fragment.lexemes false =
          before ++ (ifElse test consequent (.some alternate)).fragment.lexemes b ++ after) ∧
        ∀ before b after, program.fragment.lexemes false =
            before ++ (ifElse test consequent (.some alternate)).fragment.lexemes b ++ after →
          (ownersIn (program.fragment.lexemes false))[
            elsesIn (before ++ branchLexemes test consequent b)]? =
              Option.some (Option.some (ifsIn before))) ∧
    ∀ (spelling : Spelling) (layout : Layout),
      BranchReader.start.run ((program.pieces spelling layout).map (·.lexeme)) =
        BranchReader.start.run (program.fragment.lexemes false) := by
  refine ⟨missingElse_fragment, fun test consequent alternate member => ?_,
    fun spelling layout => ?_⟩
  · have tame : ∀ leaf ∈ (ifElse test consequent (.some alternate)).leaves,
        leaf.Tame statementTexts :=
      forall_leaves_of_mem_statements (fun leaf listed => (names leaf listed).tame (by decide)
        (by decide)) _ member
    refine ⟨lexemes_fork test consequent alternate, exists_lexemes_of_mem_statements member,
      fun before b after whole => ?_⟩
    rw [whole]
    exact ownersIn_fork tame before b after
  · have composed : Phrase (Leaf.Named k) program.fragment :=
      program.composed fun leaf listed => (names leaf listed).named
    exact BranchReader.run_of_kept (kept_pieces spelling layout program) (composed false).known

/-- The test that a name is. -/
def tested (name : String) : Expression := .identifier (.usedName name)

/-- A loop around an `if` without an `else`. -/
def loopOfBranch : Statement := .whileLoop (tested "b") (.ifElse (tested "c") .empty .none)

/-- The loop in front of an `else`. -/
def guardedBranch : Program :=
  .script .nil (.cons (.ifElse (tested "a") loopOfBranch (.some .empty)) .nil)

theorem owners_guardedBranch :
    (∀ leaf ∈ guardedBranch.leaves, leaf.NamedBut .ofTables branchWords) ∧
    loopOfBranch.endsInBareIf = true ∧
    (∃ before b after, guardedBranch.fragment.lexemes false =
        before ++ (ifElse (tested "a") loopOfBranch (.some .empty)).fragment.lexemes b ++ after ∧
      (ownersIn (guardedBranch.fragment.lexemes false))[
        elsesIn (before ++ branchLexemes (tested "a") loopOfBranch b)]? =
          Option.some (Option.some (ifsIn before))) ∧
    guardedBranch.compact = "if(a)\x7bwhile(b)if(c);\x7delse;".toList := by
  have names : ∀ leaf ∈ guardedBranch.leaves, leaf.NamedBut .ofTables branchWords := by
    show ∀ leaf ∈ [Leaf.name .used "a", .name .used "b", .name .used "c"], _
    have letter {name : String} (isName : IdentifierClass.ofTables.isName name.toList = true)
        (free : name ∉ branchWords) : (Leaf.name .used name).NamedBut .ofTables branchWords :=
      ⟨isName, fun l written word reads => by cases written; cases reads; exact free⟩
    simp only [List.forall_mem_cons]
    exact ⟨letter (by decide) (by decide), letter (by decide) (by decide),
      letter (by decide) (by decide), by simp⟩
  obtain ⟨-, forks, -⟩ := owners_of_mem_statements names
  obtain ⟨-, ⟨before, b, after, whole⟩, resolved⟩ := forks _ _ _ List.mem_cons_self
  exact ⟨names, rfl, ⟨before, b, after, whole, resolved before b after whole⟩, by rfl⟩

end Node

end EcmaScribe
