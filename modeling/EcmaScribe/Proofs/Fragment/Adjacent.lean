/-
# EcmaScribe.Proofs.Fragment.Adjacent -- which lexemes stand side by side

A reader that goes for the longest punctuator would read some pairs of operators as one.  Most
such pairs are written by no rule: after an operator comes an operand, and no operand starts
with a character that prolongs an operator other than a sign.  A point comes before a property
alone.  `Adjoins` is this relation of neighbours; the rest is left to the stream.

`Known` says where a lexeme comes from.
-/
import EcmaScribe.Proofs.Fragment.Composed
import Mathlib.Data.List.Chain

namespace EcmaScribe

set_option autoImplicit false

/-! ## Origin -/

/-- The texts that are written without a leaf. -/
def fixedTexts : List String :=
  finishedTexts ++ infixTexts ++ prefixTexts ++
    ["in", ".", "target", "(", ")", "[", "]", "\x7b", "\x7d", "\x60"]

/-- The lexemes that rules write, given the leaves. -/
inductive Lexeme.Known (admits : Leaf → Prop) : Lexeme → Prop
  | leaf {leaf : Leaf} {l : Lexeme} (admitted : admits leaf) (written : leaf.lexeme? = some l) :
      Known admits l
  | infinity : Known admits (.number (.infinity false))
  | fixed {text : String} (h : text ∈ fixedTexts) : Known admits (.verbatim text)
  | chunk (follows leads : Bool) (raw : String) : Known admits (.chunk follows leads raw)

/-- What holds of the chunks and of all substitutions holds of a template. -/
theorem Fragment.forall_mem_templatePieces {P : Lexeme → Prop}
    (chunk : ∀ follows leads raw, P (.chunk follows leads raw)) {d : Bool} (total : Nat) :
    ∀ (pieces : List TemplatePiece) (done : Nat),
      (∀ f, .code f ∈ pieces → ∀ l ∈ f.lexemes d, P l) →
        ∀ l ∈ (TemplatePiece.fragments total done pieces).flatMap (lexemes d), P l := by
  intro pieces
  induction pieces with
  | nil => exact fun done _ l member => by cases member
  | cons piece pieces ih =>
      intro done given l member
      cases piece with
      | text raw =>
          rw [TemplatePiece.fragments, List.flatMap_cons, lexemes_lexeme] at member
          rcases List.mem_cons.1 member with rfl | later
          · exact chunk _ _ raw
          · exact ih (done + 1) (fun f code => given f (by simp [code])) l later
      | code f =>
          rw [TemplatePiece.fragments, List.flatMap_cons] at member
          rcases List.mem_append.1 member with inCode | later
          · exact given f (by simp) l inCode
          · exact ih done (fun g code => given g (by simp [code])) l later

/-- Composed lexemes come from admitted leaves, from the rules, or from templates. -/
theorem Composed.known {admits : Leaf → Prop} {s : Standing} {b : Bool} {l : List Lexeme}
    (h : Composed admits s b l) : ∀ x ∈ l, x.Known admits := by
  have finished {text : String} (h : text ∈ finishedTexts) : text ∈ fixedTexts := by
    simp only [fixedTexts, List.mem_append, h, true_or]
  have infixed {text : String} (h : text ∈ infixTexts) : text ∈ fixedTexts := by
    simp only [fixedTexts, List.mem_append, h, true_or, or_true]
  have prefixed {text : String} (h : text ∈ prefixTexts) : text ∈ fixedTexts := by
    simp only [fixedTexts, List.mem_append, h, true_or, or_true]
  have enclosed {opening closing : String} (left : opening ∈ fixedTexts)
      (right : closing ∈ fixedTexts) {m : List Lexeme} (inner : ∀ x ∈ m, x.Known admits) :
      ∀ x ∈ Lexeme.verbatim opening :: m ++ [.verbatim closing], x.Known admits := by
    rw [List.cons_append]
    exact List.forall_mem_cons.2 ⟨.fixed left, List.forall_mem_append.2 ⟨inner, by
      simpa using .fixed right⟩⟩
  induction h with
  | nil => exact fun x member => by cases member
  | append _ _ left right => exact List.forall_mem_append.2 ⟨left, right⟩
  | operand _ ih => exact ih
  | andThen _ _ left right => exact List.forall_mem_append.2 ⟨left, right⟩
  | leaf admitted written => simpa using .leaf admitted written
  | infinity => simpa using .infinity
  | word text h => simpa using .fixed (finished h)
  | prefixed text operator _ ih => exact List.forall_mem_cons.2 ⟨.fixed (prefixed operator), ih⟩
  | infixed operator _ _ left right =>
      exact List.forall_mem_append.2
        ⟨left, List.forall_mem_cons.2 ⟨.fixed (infixed operator), right⟩⟩
  | isIn _ _ left right =>
      exact List.forall_mem_append.2
        ⟨left, List.forall_mem_cons.2 ⟨.fixed (by decide), right⟩⟩
  | starred _ ih => exact List.forall_mem_cons.2 ⟨.fixed (by decide), ih⟩
  | member admitted _ ih =>
      refine List.forall_mem_append.2 ⟨ih, List.forall_mem_cons.2 ⟨.fixed (by decide), ?_⟩⟩
      simpa using .leaf admitted rfl
  | newTarget =>
      simpa using ⟨.fixed (by decide), .fixed (by decide), .fixed (by decide)⟩
  | paren _ ih => exact enclosed (by decide) (by decide) ih
  | bracket _ ih => exact enclosed (by decide) (by decide) ih
  | brace _ ih => exact enclosed (by decide) (by decide) ih
  | template _ _ ih =>
      rw [Fragment.lexemes_template]
      exact enclosed (by decide) (by decide)
        (Fragment.forall_mem_templatePieces (P := Lexeme.Known admits) .chunk _ _ 0 ih)

/-! ## Neighbours -/

namespace Lexeme

/-- An operator, or a point, that waits for what it applies to. -/
def isOpen : Lexeme → Bool
  | verbatim text => infixTexts.contains text || prefixTexts.contains text || text = "."
  | _ => false

/-- The characters that prolong an operator and do not start an operand. -/
def prolonging : List Char := ['=', '<', '>', '*', '&', '|']

def prolongs : Lexeme → Bool
  | verbatim text => text.toList.head?.any prolonging.contains
  | _ => false

/-- Whether the lexeme may stand after a point. -/
def isProperty : Lexeme → Bool
  | name role _ => role = .member
  | verbatim text => text = "target"
  | _ => false

/-- What may stand after a lexeme. -/
structure Adjoins (x y : Lexeme) : Prop where
  plain : x.isOpen = true → y.prolongs = false
  property : x = .verbatim "." → y.isProperty = true

end Lexeme

/-- The lexemes that are not blank. -/
def writtenLexemes (l : List Lexeme) : List Lexeme := l.filter fun x => !x.isBlank

/-- Neighbours adjoin, and no operator is left open. -/
structure Linked (l : List Lexeme) : Prop where
  chain : (writtenLexemes l).IsChain Lexeme.Adjoins
  closed : ∀ x ∈ (writtenLexemes l).getLast?, x.isOpen = false

/-- Linked lexemes that may stand after an operator. -/
structure Led (l : List Lexeme) : Prop extends Linked l where
  leads : ∃ x rest, writtenLexemes l = x :: rest ∧ x.prolongs = false

theorem writtenLexemes_append (l m : List Lexeme) :
    writtenLexemes (l ++ m) = writtenLexemes l ++ writtenLexemes m := List.filter_append l m

theorem writtenLexemes_cons {x : Lexeme} (written : x.isBlank = false) (l : List Lexeme) :
    writtenLexemes (x :: l) = x :: writtenLexemes l := List.filter_cons_of_pos (by simp [written])

theorem linked_nil : Linked [] := ⟨.nil, by simp [writtenLexemes]⟩

/-- After what leaves nothing open anything may stand. -/
theorem Lexeme.adjoins_of_closed {x y : Lexeme} (closed : x.isOpen = false) : x.Adjoins y := by
  refine ⟨fun isOpen => ?_, ?_⟩
  · rw [closed] at isOpen
    cases isOpen
  · rintro rfl
    cases closed

theorem Linked.append {l m : List Lexeme} (left : Linked l) (right : Linked m) :
    Linked (l ++ m) := by
  refine ⟨?_, ?_⟩
  · rw [writtenLexemes_append]
    exact left.chain.append right.chain fun x last y _ => Lexeme.adjoins_of_closed (left.closed x last)
  · rw [writtenLexemes_append, List.getLast?_append]
    intro x last
    cases found : (writtenLexemes m).getLast? with
    | none =>
        rw [found] at last
        exact left.closed x last
    | some y =>
        rw [found] at last
        exact right.closed x (found.trans last)

theorem Led.append {l m : List Lexeme} (left : Led l) (right : Linked m) : Led (l ++ m) := by
  obtain ⟨x, rest, written, plain⟩ := left.leads
  refine ⟨left.toLinked.append right, x, rest ++ writtenLexemes m, ?_, plain⟩
  rw [writtenLexemes_append, written, List.cons_append]

theorem linked_singleton {x : Lexeme} (closed : x.isOpen = false) : Linked [x] := by
  by_cases blank : x.isBlank = true
  · have empty : writtenLexemes [x] = [] := by simp [writtenLexemes, blank]
    exact ⟨by rw [empty]; exact .nil, by simp [empty]⟩
  · have single := writtenLexemes_cons (by simpa using blank : x.isBlank = false) []
    exact ⟨by rw [single]; exact .singleton x, by rw [single]; simpa [writtenLexemes] using closed⟩

theorem led_singleton {x : Lexeme} (written : x.isBlank = false) (closed : x.isOpen = false)
    (plain : x.prolongs = false) : Led [x] :=
  ⟨linked_singleton closed, x, [], writtenLexemes_cons written [], plain⟩

/-- An operator before what may stand after it. -/
theorem Led.after {x : Lexeme} {m : List Lexeme} (h : Led m) (written : x.isBlank = false)
    (noPoint : x ≠ .verbatim ".") : Linked (x :: m) := by
  obtain ⟨y, rest, inFront, plain⟩ := h.leads
  refine ⟨?_, ?_⟩
  · rw [writtenLexemes_cons written, inFront]
    exact .cons_cons ⟨fun _ => plain, fun point => absurd point noPoint⟩ (inFront ▸ h.chain)
  · rw [writtenLexemes_cons written, inFront, List.getLast?_cons_cons]
    exact inFront ▸ h.closed

theorem linked_property {y : Lexeme} (property : y.isProperty = true) (written : y.isBlank = false) :
    Linked [.verbatim ".", y] := by
  have kind : y.prolongs = false ∧ y.isOpen = false := by
    cases y with
    | verbatim text =>
        obtain rfl : text = "target" := by simpa [Lexeme.isProperty] using property
        decide
    | _ => exact ⟨rfl, rfl⟩
  have written : writtenLexemes [.verbatim ".", y] = [.verbatim ".", y] := by
    rw [writtenLexemes_cons (by decide), writtenLexemes_cons written]
    rfl
  refine ⟨?_, ?_⟩
  · rw [written]
    exact .cons_cons ⟨fun _ => kind.1, fun _ => property⟩ (.singleton y)
  · rw [written]
    simpa using kind.2

theorem linked_templatePieces {d : Bool} (total : Nat) :
    ∀ (pieces : List Fragment.TemplatePiece) (done : Nat),
      (∀ f, .code f ∈ pieces → Linked (f.lexemes d)) →
        Linked ((Fragment.TemplatePiece.fragments total done pieces).flatMap
          (Fragment.lexemes d)) := by
  intro pieces
  induction pieces with
  | nil => exact fun done _ => linked_nil
  | cons piece pieces ih =>
      intro done given
      cases piece with
      | text raw =>
          rw [Fragment.TemplatePiece.fragments, List.flatMap_cons, Fragment.lexemes_lexeme]
          exact (linked_singleton rfl).append
            (ih (done + 1) fun f code => given f (by simp [code]))
      | code f =>
          rw [Fragment.TemplatePiece.fragments, List.flatMap_cons]
          exact (given f (by simp)).append (ih done fun g code => given g (by simp [code]))

/-- What the rules of each standing keep. -/
def Standing.Keeps : Standing → List Lexeme → Prop
  | operand => Led
  | phrase => Linked

/-- **Composed lexemes are linked**, and those that may follow an operator do not prolong it. -/
theorem Composed.keeps {admits : Leaf → Prop}
    (written : ∀ leaf l, admits leaf → leaf.lexeme? = some l → l.isBlank = false)
    {s : Standing} {b : Bool} {l : List Lexeme} (h : Composed admits s b l) : s.Keeps l := by
  have words : ∀ text ∈ finishedTexts, (Lexeme.verbatim text).isBlank = false ∧
      (Lexeme.verbatim text).isOpen = false ∧ (Lexeme.verbatim text).prolongs = false := by
    decide +kernel
  have operators : ∀ text ∈ infixTexts, (Lexeme.verbatim text).isBlank = false ∧ text ≠ "." := by
    decide
  have signs : ∀ text ∈ prefixTexts, (Lexeme.verbatim text).isBlank = false ∧ text ≠ "." ∧
      (Lexeme.verbatim text).prolongs = false := by decide
  have enclosed {opening closing : String} {m : List Lexeme}
      (left : Led [.verbatim opening]) (right : Linked [.verbatim closing]) (inner : Linked m) :
      Led (.verbatim opening :: m ++ [.verbatim closing]) := (left.append inner).append right
  have ofLeaf {leaf : Leaf} {l : Lexeme} (admitted : admits leaf) (same : leaf.lexeme? = some l) :
      l.isOpen = false ∧ l.prolongs = false := by
    cases leaf with
    | key value =>
        simp only [Leaf.lexeme?, Option.some.injEq] at same
        subst same
        split
        · exact ⟨rfl, rfl⟩
        · split <;> exact ⟨rfl, rfl⟩
    | _ => cases same <;> exact ⟨rfl, rfl⟩
  induction h with
  | nil => exact linked_nil
  | append _ _ left right => exact Linked.append left right
  | operand _ ih => exact Led.toLinked ih
  | andThen _ _ left right => exact Led.append left right
  | leaf admitted same =>
      obtain ⟨closed, plain⟩ := ofLeaf admitted same
      exact led_singleton (written _ _ admitted same) closed plain
  | infinity => exact led_singleton rfl rfl rfl
  | word text finished =>
      obtain ⟨nonempty, closed, plain⟩ := words text finished
      exact led_singleton nonempty closed plain
  | prefixed text operator _ ih =>
      obtain ⟨nonempty, noPoint, plain⟩ := signs text operator
      refine ⟨Led.after ih nonempty (by simpa using noPoint), _, _, writtenLexemes_cons nonempty _,
        plain⟩
  | infixed operator _ _ left right =>
      obtain ⟨nonempty, noPoint⟩ := operators _ operator
      exact Led.append left (Led.after right nonempty (by simpa using noPoint))
  | isIn _ _ left right => exact Led.append left (Led.after right (by decide) (by decide))
  | starred _ ih => exact Led.after ih (by decide) (by decide)
  | member admitted _ ih =>
      exact Led.append ih (linked_property rfl (written _ _ admitted rfl))
  | newTarget =>
      exact (led_singleton (by decide) (by decide) (by decide)).append
        (linked_property (by decide) (by decide))
  | paren _ ih =>
      exact enclosed (led_singleton (by decide) (by decide) (by decide))
        (linked_singleton (by decide)) ih
  | bracket _ ih =>
      exact enclosed (led_singleton (by decide) (by decide) (by decide))
        (linked_singleton (by decide)) ih
  | brace _ ih =>
      exact enclosed (led_singleton (by decide) (by decide) (by decide))
        (linked_singleton (by decide)) ih
  | template _ _ ih =>
      rw [Fragment.lexemes_template]
      exact enclosed (led_singleton (by decide) (by decide) (by decide))
        (linked_singleton (by decide))
        (linked_templatePieces _ _ 0 fun f code => Led.toLinked (ih f code))

end EcmaScribe
