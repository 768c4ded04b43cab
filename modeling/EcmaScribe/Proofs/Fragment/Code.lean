/-
# EcmaScribe.Proofs.Fragment.Code -- the rules by which expressions are put together

`Code` lists how the fragment of an expression, a target or a pattern is made: of leaves and of
words that belong to expressions, in a row or in brackets.  What stands in brackets is any
phrase.  So, unlike in `Composed`, no semicolon and no word of a statement stands outside the
brackets, and `in` only where a fragment is marked as holding one.

`Code.plain` draws from the rules how such a fragment is written with and without the
restriction on a bare `in`: under it, there is none outside brackets, and the restriction
changes nothing at all unless there would be one.
-/
import EcmaScribe.Proofs.Fragment.Nesting

namespace EcmaScribe

set_option autoImplicit false

/-- A leaf that is written as no bracket, no `in` and none of the words. -/
abbrev Leaf.Tame (words : List String) : Leaf → Prop :=
  Leaf.Avoids ("in" :: words ++ bracketTexts)

namespace Fragment

/-- Texts that are no word of an expression: brackets, `in`, what ends a statement or starts
one, and what is not written. -/
def structuralTexts : List String :=
  "" :: "in" :: ";" :: "if" :: "else" :: "do" :: "while" :: bracketTexts

/-- Fragments in a row that make up an expression, or several. -/
inductive Code (admits : Leaf → Prop) : List Fragment → Prop
  | leaf {leaf : Leaf} {l : Lexeme} (admitted : admits leaf) (written : leaf.lexeme? = some l) :
      Code admits [lexeme l]
  | infinity : Code admits [lexeme (.number (.infinity false))]
  | word (text : String) (free : text ∉ structuralTexts) : Code admits [token text]
  | cons {f : Fragment} {fs : List Fragment} (first : Code admits [f]) (rest : Code admits fs) :
      Code admits (f :: fs)
  | apart {f : Fragment} {fs : List Fragment} (first : Code admits [f]) (rest : Code admits fs) :
      Code admits (f :: space :: fs)
  | seq {fs : List Fragment} (children : Code admits fs) : Code admits [seq fs]
  | paren {f : Fragment} (inner : Phrase admits f) : Code admits [paren f]
  | bracket {f : Fragment} (inner : Phrase admits f) : Code admits [bracket f]
  | brace {f : Fragment} (inner : Phrase admits f) : Code admits [brace f]
  | isIn {l r : Fragment} (left : Code admits [l]) (right : Code admits [r]) :
      Code admits [containsIn (spaced [l, token "in", r])]
  | marked (mark : Mark) {f : Fragment} (inner : Code admits [f]) : Code admits [marked mark f]
  | template {tag : Option Fragment} {pieces : List TemplatePiece}
      (tagged : ∀ f ∈ tag, Code admits [f]) (codes : ∀ f, .code f ∈ pieces → Code admits [f]) :
      Code admits [template tag pieces]

/-! ## Phrases -/

section Phrases

variable {admits : Leaf → Prop}

namespace Code

theorem name {role : NameRole} {text : String} (admitted : admits (.name role text)) :
    Code admits [lexeme (.name role text)] := .leaf admitted rfl

theorem parenIf (condition : Bool) {f : Fragment} (h : Code admits [f])
    (inner : Phrase admits f) : Code admits [parenIf condition f] := by
  cases condition with
  | true => exact .paren inner
  | false => exact h

theorem atLeast (required : Precedence) (node : Expression) {f : Fragment} (h : Code admits [f])
    (inner : Phrase admits f) : Code admits [atLeast required node f] := by
  unfold Fragment.atLeast
  split
  · exact .paren inner
  · exact h

/-- Two parts with a word between them. -/
theorem infixed {text : String} (free : text ∉ structuralTexts) {f g : Fragment}
    (left : Code admits [f]) (right : Code admits [g]) :
    Code admits [spaced [f, token text, g]] :=
  .seq (.apart left (.apart (.word text free) right))

/-- A word and what it is for. -/
theorem prefixed {text : String} (free : text ∉ structuralTexts) {f : Fragment}
    (operand : Code admits [f]) : Code admits [spaced [token text, f]] :=
  .seq (.apart (.word text free) operand)

/-- A word, its head in parentheses, and a body. -/
theorem headed {text : String} (free : text ∉ structuralTexts) {head body : Fragment}
    (inner : Phrase admits head) (hBody : Code admits [body]) :
    Code admits [spaced [token text, .paren head, body]] :=
  .seq (.apart (.word text free) (.apart (.paren inner) hBody))

theorem defaulted {target value : Fragment} (node : Expression) (left : Code admits [target])
    (right : Code admits [value]) (inner : Phrase admits value) :
    Code admits [defaulted target node value] :=
  infixed (by decide) left (right.atLeast _ _ inner)

theorem block {fs : List Fragment} (h : ∀ f ∈ fs, Phrase admits f) : Code admits [block fs] := by
  unfold Fragment.block
  split
  · exact .brace phrase_empty
  · exact .brace (phrase_seq (by
      simpa using ⟨phrase_indent (phrase_lines h), fun b => by simpa using Composed.nil⟩))

theorem objectBraces {fs : List Fragment} (h : ∀ f ∈ fs, Phrase admits f) :
    Code admits [objectBraces fs] := .marked _ (.brace (phrase_commaSep h))

theorem member {object : Node .subject} {f : Fragment} (h : Code admits [f])
    (inner : Phrase admits f) : Code admits [memberObject object f] := h.parenIf _ inner

theorem staticMember {object : Node .subject} {f : Fragment} {property : String}
    (admitted : admits (.name .member property)) (h : Code admits [f]) (inner : Phrase admits f) :
    Code admits [staticMember object f property] :=
  .seq (.cons (h.member inner) (.cons (.word "." (by decide)) (.name admitted)))

theorem computedMember {object : Node .subject} {f key : Fragment} (h : Code admits [f])
    (inner : Phrase admits f) (hKey : Phrase admits key) :
    Code admits [computedMember object f key] := by
  have access : Code admits [.seq [memberObject object f, .bracket key]] :=
    .seq (.cons (h.member inner) (.bracket hKey))
  unfold Fragment.computedMember markedIf
  split
  · exact .marked _ access
  · exact access

theorem asyncHead (isAsync : Bool) {fs : List Fragment} (h : Code admits fs) :
    Code admits (asyncHead isAsync ++ fs) := by
  cases isAsync with
  | true => exact .apart (.word "async" (by decide)) h
  | false => exact h

theorem function {isAsync isGenerator : Bool} {name : Option Fragment} {params body : Fragment}
    (hName : ∀ f ∈ name, Code admits [f]) (hParams : Code admits [params])
    (hBody : Code admits [body]) :
    Code admits [function isAsync isGenerator name params body] := by
  have last : Code admits [params, space, body] := .apart hParams hBody
  have keyword : Code admits [token "function"] := .word _ (by decide)
  have star : Code admits [token "*"] := .word _ (by decide)
  have signature : Code admits (token "function" :: generatorStar isGenerator ++
      name.toList.flatMap (fun name => [space, name]) ++ [params, space, body]) := by
    cases name with
    | none =>
        cases isGenerator with
        | true => exact .cons keyword (.cons star last)
        | false => exact .cons keyword last
    | some name =>
        have named : Code admits [name] := hName name rfl
        cases isGenerator with
        | true => exact .cons keyword (.apart star (.cons named last))
        | false => exact .apart keyword (.cons named last)
  have whole := signature.asyncHead isAsync
  rw [← List.append_assoc, ← List.append_assoc] at whole
  exact .seq whole

theorem class_ {name heritage : Option Fragment} {elements : List Fragment}
    (hName : ∀ f ∈ name, Code admits [f]) (hHeritage : ∀ f ∈ heritage, Code admits [f])
    (h : ∀ f ∈ elements, Phrase admits f) : Code admits [class_ name heritage elements] := by
  have keyword : Code admits [token "class"] := .word _ (by decide)
  have inherits {f : Fragment} (hf : Code admits [f]) :
      Code admits [token "extends", space, f, space, Fragment.block elements] :=
    .apart (.word _ (by decide)) (.apart hf (.block h))
  cases name with
  | none =>
      cases heritage with
      | none => exact .seq (.apart keyword (.block h))
      | some heritage => exact .seq (.apart keyword (inherits (hHeritage heritage rfl)))
  | some name =>
      have named : Code admits [name] := hName name rfl
      cases heritage with
      | none => exact .seq (.apart keyword (.apart named (.block h)))
      | some heritage =>
          exact .seq (.apart keyword (.apart named (inherits (hHeritage heritage rfl))))

theorem binary {left right : Expression} {operator : BinaryOperator} {l r : Fragment}
    (hLeft : Code admits [l]) (hRight : Code admits [r]) (innerLeft : Phrase admits l)
    (innerRight : Phrase admits r) : Code admits [binary left operator right l r] := by
  have operands : Code admits [(binaryOperands left operator right l r).1] ∧
      Code admits [(binaryOperands left operator right l r).2] := by
    unfold binaryOperands
    dsimp only
    split
    · exact ⟨hLeft.parenIf _ innerLeft, hRight.atLeast _ _ innerRight⟩
    · exact ⟨hLeft.atLeast _ _ innerLeft, hRight.parenIf _ innerRight⟩
  obtain ⟨first, second⟩ := operands
  cases operator with
  | sequence => exact .seq (.cons first (.apart (.word _ (by decide)) second))
  | isIn => exact .isIn first second
  | _ => exact infixed (by decide) first second

theorem unary {operator : UnaryOperator} {operand : Expression} {f : Fragment}
    (h : Code admits [f]) (inner : Phrase admits f) : Code admits [unary operator operand f] := by
  have argument := h.atLeast .prefixed operand inner
  cases operator with
  | typeOf | void | delete => exact prefixed (by decide) argument
  | plus | minus | logicalNot | bitNot => exact .seq (.cons (.word _ (by decide)) argument)

end Code

end Phrases

/-! ## How code is written outside brackets -/

/-- Lexemes without and with the restriction on a bare `in`.  None of the words stands outside
brackets, nor does `in` under the restriction, and the restriction changes something only if
there is an `in` to protect. -/
structure Plain (words : List String) (written : Bool → List Lexeme) : Prop where
  avoids : ∀ b, ExposesOnly (Lexeme.Avoids words) (written b)
  restricted : ExposesOnly (Lexeme.Avoids ["in"]) (written true)
  unchanged : ExposesOnly (Lexeme.Avoids ["in"]) (written false) → written true = written false

namespace Plain

variable {words : List String} {v w : Bool → List Lexeme}

/-- What the restriction does not concern. -/
theorem constant {l : List Lexeme} (avoids : ExposesOnly (Lexeme.Avoids words) l)
    (noIn : ExposesOnly (Lexeme.Avoids ["in"]) l) : Plain words fun _ => l :=
  ⟨fun _ => avoids, noIn, fun _ => rfl⟩

theorem nil : Plain words fun _ => [] := constant .nil .nil

theorem single {l : Lexeme} (noBracket : l.Avoids bracketTexts) (free : l.Avoids words)
    (noIn : l.Avoids ["in"]) : Plain words fun _ => [l] :=
  constant (.single noBracket free) (.single noBracket noIn)

theorem append (left : Plain words v) (right : Plain words w) :
    Plain words fun b => v b ++ w b where
  avoids b := (left.avoids b).append (right.avoids b)
  restricted := left.restricted.append right.restricted
  unchanged free := by
    obtain ⟨first, second⟩ := (exposesOnly_append (left.avoids false).balanced).1 free
    rw [left.unchanged first, right.unchanged second]

theorem flatMap {fs : List Fragment} (h : ∀ f ∈ fs, Plain words fun b => f.lexemes b) :
    Plain words fun b => fs.flatMap (lexemes b) := by
  induction fs with
  | nil => exact nil
  | cons f fs ih =>
      obtain ⟨first, rest⟩ := List.forall_mem_cons.1 h
      exact first.append (ih rest)

end Plain

/-- **Brackets match** in a phrase, if its leaves are tame. -/
theorem Phrase.balanced {words : List String} {f : Fragment} (h : Phrase (Leaf.Tame words) f)
    (b : Bool) : Balanced (f.lexemes b) :=
  (h b).balanced fun _ tame l written => (tame l written).mono (by simp)

/-- Words that statements start and end with, which no code has outside brackets. -/
def statementTexts : List String := [";", "if", "else", "do", "while"]

section Written

variable {words : List String} (known : words ⊆ statementTexts)

include known

theorem plain_token {text : String} (free : text ∉ structuralTexts) :
    Plain words fun b => (token text).lexemes b := by
  have subset : bracketTexts ⊆ structuralTexts ∧ ["in"] ⊆ structuralTexts ∧
      statementTexts ⊆ structuralTexts := by decide
  obtain ⟨brackets, isIn, statements⟩ := subset
  have avoids : (Lexeme.verbatim text).Avoids structuralTexts := Lexeme.avoids_verbatim.2 free
  simpa using .single (avoids.mono brackets) (avoids.mono (List.Subset.trans known statements))
    (avoids.mono isIn)

theorem plain_commaSep {fs : List Fragment} (h : ∀ f ∈ fs, Plain words fun b => f.lexemes b) :
    Plain words fun b => (commaSep fs).lexemes b := by
  have comma : Plain words fun b => (token ",").lexemes b := plain_token known (by decide)
  simp only [lexemes_commaSep]
  generalize true = first
  induction fs generalizing first with
  | nil => exact .nil
  | cons f fs ih =>
      obtain ⟨hFirst, hRest⟩ := List.forall_mem_cons.1 h
      have later := hFirst.append (ih hRest false)
      cases first with
      | true => simpa [lexemesCommas] using later
      | false => simpa [lexemesCommas] using comma.append later

/-- **Outside its brackets** code has no word that would end it. -/
theorem Code.plain {fs : List Fragment} (h : Code (Leaf.Tame words) fs) :
    Plain words fun b => fs.flatMap (lexemes b) := by
  have literal {l : Lexeme} (plain : l.word? = none) : Plain words fun _ => [l] := by
    have avoids (words : List String) : l.Avoids words := fun word reads => by
      rw [plain] at reads
      cases reads
    exact .single (avoids _) (avoids _) (avoids _)
  induction h with
  | leaf tame written =>
      have avoids := tame _ written
      simpa using .single (avoids.mono (by simp)) (avoids.mono (by simp)) (avoids.mono (by simp))
  | infinity => simpa using literal rfl
  | word text free => simpa using plain_token known free
  | cons _ _ first rest => simpa using first.append rest
  | apart _ _ first rest => simpa using first.append rest
  | seq _ ih => simpa using ih
  | paren inner =>
      have inside := inner.balanced false
      simpa using .constant inside.paren inside.paren
  | bracket inner =>
      have inside := inner.balanced false
      simpa using .constant inside.bracket inside.bracket
  | brace inner =>
      have inside := inner.balanced false
      simpa using .constant inside.brace inside.brace
  | @isIn l r _ _ left right =>
      have noBracket : (Lexeme.verbatim "in").Avoids bracketTexts :=
        Lexeme.avoids_verbatim.2 (by decide)
      have free : (Lexeme.verbatim "in").Avoids words :=
        Lexeme.avoids_verbatim.2 fun member => absurd (known member) (by decide)
      have left : ExposesOnly (Lexeme.Avoids words) (l.lexemes false) := by
        simpa using left.avoids false
      have right : ExposesOnly (Lexeme.Avoids words) (r.lexemes false) := by
        simpa using right.avoids false
      have bare := left.append (right.cons noBracket free)
      refine ⟨fun b => ?_, ?_, fun noIn => ?_⟩
      · cases b with
        | true => simpa [lexemes_containsIn] using bare.balanced.paren
        | false => simpa [lexemes_containsIn] using bare
      · simpa [lexemes_containsIn] using bare.balanced.paren
      · have whole : ExposesOnly (Lexeme.Avoids ["in"])
            (l.lexemes false ++ .verbatim "in" :: r.lexemes false) := by
          simpa [lexemes_containsIn] using noIn
        have own := ((exposesOnly_append left.balanced).1 whole).2.head noBracket
        exact absurd own (by simp [Lexeme.Avoids, Lexeme.word?])
  | marked mark _ ih => simpa using ih
  | @template tag pieces _ _ tagged codes =>
      have chunks : ∀ f ∈ TemplatePiece.fragments (pieces.countP TemplatePiece.isText) 0 pieces,
          Plain words fun b => f.lexemes b := by
        intro f member
        rcases cases_of_mem_templatePieces member with ⟨follows, leads, raw, rfl⟩ | code
        · simpa using literal rfl
        · simpa using codes f code
      have quote : Plain words fun b => (token "\x60").lexemes b := plain_token known (by decide)
      have text := (quote.append (.flatMap chunks)).append quote
      cases tag with
      | none => simpa [Fragment.template] using text
      | some tag => simpa [Fragment.template] using (tagged tag rfl).append text

theorem Code.plain_single {f : Fragment} (h : Code (Leaf.Tame words) [f]) :
    Plain words fun b => f.lexemes b := by
  simpa using h.plain known

end Written

end Fragment

end EcmaScribe
