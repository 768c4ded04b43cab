/-
# EcmaScribe.Proofs.Fragment.Nesting -- what stands outside all brackets

Some words of a script end what stands in front of them only where no bracket is open: the
`;` and the `in` of a loop head, the `else` of an `if`.  `exposed` reads lexemes with a stack
of awaited brackets.  It gives the lexemes that stand outside all brackets, and nothing at all
unless every bracket is closed by its own.

What is composed by the rules of `Composed` is balanced (`Composed.balanced`), if its leaves are
no brackets.  The `${` of a template and the brace that closes it belong to template text and
are no brackets here.
-/
import EcmaScribe.Proofs.Fragment.Composed

namespace EcmaScribe

set_option autoImplicit false

/-! ## Words and brackets -/

/-- What a word does to the nesting of brackets; a bracket is told by the one that closes it. -/
inductive Bracketing
  | opens (closer : String)
  | closes (closer : String)
  | plain
  deriving DecidableEq, Repr

def Bracketing.ofWord : String → Bracketing
  | "(" => .opens ")"
  | "[" => .opens "]"
  | "\x7b" => .opens "\x7d"
  | ")" => .closes ")"
  | "]" => .closes "]"
  | "\x7d" => .closes "\x7d"
  | _ => .plain

def bracketTexts : List String := ["(", "[", "\x7b", ")", "]", "\x7d"]

theorem Bracketing.ofWord_of_not_mem {word : String} (h : word ∉ bracketTexts) :
    ofWord word = .plain := by
  simp only [bracketTexts, List.mem_cons, List.not_mem_nil, or_false, not_or] at h
  unfold ofWord
  split <;> simp_all

namespace Lexeme

/-- The text of a keyword, a punctuator or a name.  Literals and template text are no words. -/
def word? : Lexeme → Option String
  | verbatim text | name _ text => some text
  | number _ | string _ | quoted _ | regExp .. | chunk .. | directive _ => none

/-- The lexeme is none of the words. -/
def Avoids (words : List String) (l : Lexeme) : Prop := ∀ word ∈ l.word?, word ∉ words

theorem Avoids.mono {words fewer : List String} {l : Lexeme} (h : l.Avoids words)
    (subset : fewer ⊆ words) : l.Avoids fewer :=
  fun word reads member => h word reads (subset member)

theorem avoids_verbatim {words : List String} {text : String} :
    (verbatim text).Avoids words ↔ text ∉ words := by
  simp [Avoids, word?]

def bracketing (l : Lexeme) : Bracketing := l.word?.elim .plain .ofWord

theorem Avoids.bracketing {l : Lexeme} (h : l.Avoids bracketTexts) : l.bracketing = .plain := by
  cases reads : l.word? with
  | none => simp [Lexeme.bracketing, reads]
  | some word => simp [Lexeme.bracketing, reads, Bracketing.ofWord_of_not_mem (h word reads)]

end Lexeme

/-- The leaf is written as none of the words. -/
def Leaf.Avoids (words : List String) (leaf : Leaf) : Prop :=
  ∀ l ∈ leaf.lexeme?, l.Avoids words

/-! ## Reading with a stack -/

/-- The lexemes outside all brackets, if every bracket is closed by its own; `awaited` are the
brackets that are open at first, the innermost first. -/
def exposed (awaited : List String) : List Lexeme → Option (List Lexeme)
  | [] => if awaited = [] then some [] else none
  | l :: rest =>
      match l.bracketing, awaited with
      | .opens closer, _ => exposed (closer :: awaited) rest
      | .closes closer, innermost :: outer =>
          if closer = innermost then exposed outer rest else none
      | .closes _, [] => none
      | .plain, [] => (exposed [] rest).map (l :: ·)
      | .plain, _ :: _ => exposed awaited rest

/-- **Lexemes with matching brackets** are passed over within further brackets, and outside all
brackets they are read on their own. -/
theorem exposed_append {awaited : List String} {l o : List Lexeme}
    (h : exposed awaited l = some o) (outer : List String) (rest : List Lexeme) :
    exposed (awaited ++ outer) (l ++ rest) =
      if outer = [] then (exposed [] rest).map (o ++ ·) else exposed outer rest := by
  induction l generalizing awaited o with
  | nil =>
      cases awaited with
      | cons closer awaited => simp [exposed] at h
      | nil =>
          obtain rfl : [] = o := by simpa [exposed] using h
          cases outer <;> simp
  | cons x l ih =>
      cases role : x.bracketing with
      | opens closer =>
          have inner : exposed (closer :: awaited) l = some o := by simpa [exposed, role] using h
          simpa [exposed, role] using ih inner
      | closes closer =>
          cases awaited with
          | nil => simp [exposed, role] at h
          | cons innermost awaited =>
              obtain ⟨own, inner⟩ : closer = innermost ∧ exposed awaited l = some o := by
                simpa [exposed, role] using h
              simpa [exposed, role, own] using ih inner
      | plain =>
          cases awaited with
          | cons innermost awaited =>
              have inner : exposed (innermost :: awaited) l = some o := by
                simpa [exposed, role] using h
              simpa [exposed, role] using ih inner
          | nil =>
              obtain ⟨p, inner, rfl⟩ : ∃ p, exposed [] l = some p ∧ x :: p = o := by
                simpa [exposed, role] using h
              cases outer with
              | nil =>
                  have later := congrArg (Option.map (x :: ·)) (ih inner)
                  simpa [exposed, role, Function.comp_def] using later
              | cons closer outer => simpa [exposed, role] using ih inner

/-! ## What may stand outside -/

/-- Brackets match, and outside them there is only what `P` allows. -/
def ExposesOnly (P : Lexeme → Prop) (l : List Lexeme) : Prop :=
  ∃ o, exposed [] l = some o ∧ ∀ x ∈ o, P x

abbrev Balanced : List Lexeme → Prop := ExposesOnly fun _ => True

namespace ExposesOnly

variable {P Q : Lexeme → Prop} {l m : List Lexeme}

theorem mono (h : ExposesOnly P l) (weaker : ∀ x, P x → Q x) : ExposesOnly Q l := by
  obtain ⟨o, reads, allowed⟩ := h
  exact ⟨o, reads, fun x member => weaker x (allowed x member)⟩

theorem and (left : ExposesOnly P l) (right : ExposesOnly Q l) :
    ExposesOnly (fun x => P x ∧ Q x) l := by
  obtain ⟨o, reads, first⟩ := left
  obtain ⟨p, again, second⟩ := right
  obtain rfl : o = p := Option.some.inj (reads.symm.trans again)
  exact ⟨o, reads, fun x member => ⟨first x member, second x member⟩⟩

theorem balanced (h : ExposesOnly P l) : Balanced l := h.mono fun _ _ => trivial

theorem nil : ExposesOnly P [] := ⟨[], rfl, by simp⟩

theorem single {x : Lexeme} (noBracket : x.Avoids bracketTexts) (allowed : P x) :
    ExposesOnly P [x] :=
  ⟨[x], by simp [exposed, noBracket.bracketing], by simpa using allowed⟩

end ExposesOnly

theorem exposesOnly_append {P : Lexeme → Prop} {l m : List Lexeme} (balanced : Balanced l) :
    ExposesOnly P (l ++ m) ↔ ExposesOnly P l ∧ ExposesOnly P m := by
  obtain ⟨o, reads, -⟩ := balanced
  have whole : exposed [] (l ++ m) = (exposed [] m).map (o ++ ·) := by
    simpa using exposed_append reads [] m
  constructor
  · rintro ⟨p, both, allowed⟩
    rw [whole] at both
    obtain ⟨q, second, rfl⟩ := Option.map_eq_some_iff.1 both
    obtain ⟨left, right⟩ := List.forall_mem_append.1 allowed
    exact ⟨⟨o, reads, left⟩, ⟨q, second, right⟩⟩
  · rintro ⟨⟨p, first, left⟩, ⟨q, second, right⟩⟩
    obtain rfl : o = p := Option.some.inj (reads.symm.trans first)
    exact ⟨o ++ q, by rw [whole, second]; rfl, List.forall_mem_append.2 ⟨left, right⟩⟩

namespace ExposesOnly

variable {P : Lexeme → Prop} {l m : List Lexeme}

theorem append (left : ExposesOnly P l) (right : ExposesOnly P m) : ExposesOnly P (l ++ m) :=
  (exposesOnly_append left.balanced).2 ⟨left, right⟩

theorem cons {x : Lexeme} (noBracket : x.Avoids bracketTexts) (allowed : P x)
    (rest : ExposesOnly P l) : ExposesOnly P (x :: l) :=
  (single noBracket allowed).append rest

/-- The first lexeme stands outside brackets. -/
theorem head {x : Lexeme} (noBracket : x.Avoids bracketTexts) (h : ExposesOnly P (x :: l)) :
    P x := by
  have first : exposed [] [x] = some [x] := by simp [exposed, noBracket.bracketing]
  obtain ⟨⟨o, reads, allowed⟩, -⟩ :=
    (exposesOnly_append (l := [x]) (single noBracket trivial)).1 h
  obtain rfl : [x] = o := Option.some.inj (first.symm.trans reads)
  exact List.forall_mem_singleton.1 allowed

theorem flatMap {α : Type} {f : α → List Lexeme} {xs : List α} (h : ∀ x ∈ xs, ExposesOnly P (f x)) :
    ExposesOnly P (xs.flatMap f) := by
  induction xs with
  | nil => exact nil
  | cons x xs ih =>
      obtain ⟨first, rest⟩ := List.forall_mem_cons.1 h
      exact first.append (ih rest)

/-- Nothing stands outside a pair of brackets. -/
theorem enclosed {opening closing : String} (pair : Bracketing.ofWord opening = .opens closing)
    (own : Bracketing.ofWord closing = .closes closing) (inner : Balanced l) :
    ExposesOnly P (.verbatim opening :: l ++ [.verbatim closing]) := by
  obtain ⟨o, reads, -⟩ := inner
  have opens : (Lexeme.verbatim opening).bracketing = .opens closing := pair
  have closes : (Lexeme.verbatim closing).bracketing = .closes closing := own
  refine ⟨[], ?_, by simp⟩
  have passed := exposed_append reads [closing] [.verbatim closing]
  simpa [exposed, opens, closes] using passed

theorem paren (inner : Balanced l) : ExposesOnly P (.verbatim "(" :: l ++ [.verbatim ")"]) :=
  enclosed rfl rfl inner

theorem bracket (inner : Balanced l) : ExposesOnly P (.verbatim "[" :: l ++ [.verbatim "]"]) :=
  enclosed rfl rfl inner

theorem brace (inner : Balanced l) :
    ExposesOnly P (.verbatim "\x7b" :: l ++ [.verbatim "\x7d"]) :=
  enclosed rfl rfl inner

/-- Balanced lexemes end in front of a bracket that is not their own. -/
theorem not_append_closing {closing : String} (closes : Bracketing.ofWord closing = .closes closing)
    (h : Balanced l) (m : List Lexeme) : ¬ Balanced (l ++ .verbatim closing :: m) := by
  intro whole
  obtain ⟨-, o, reads, -⟩ := (exposesOnly_append h).1 whole
  have role : (Lexeme.verbatim closing).bracketing = .closes closing := closes
  simp [exposed, role] at reads

/-- They end, too, in front of what may not stand outside their brackets. -/
theorem not_append_forbidden {stop : Lexeme} (noBracket : stop.Avoids bracketTexts)
    (forbidden : ¬ P stop) (h : ExposesOnly P l) (m : List Lexeme) :
    ¬ ExposesOnly P (l ++ stop :: m) := fun whole =>
  forbidden (((exposesOnly_append h.balanced).1 whole).2.head noBracket)

end ExposesOnly

/-- What ends in front of a lexeme wherever it stands is told apart from what follows. -/
theorem append_cons_unique {p : List Lexeme → Prop} {stop : Lexeme}
    (ends : ∀ l m, p l → ¬ p (l ++ stop :: m)) {l l' m m' : List Lexeme} (h : p l) (h' : p l')
    (same : l ++ stop :: m = l' ++ stop :: m') : l = l' ∧ m = m' := by
  rcases List.append_eq_append_iff.1 same with ⟨more, longer, rest⟩ | ⟨more, longer, rest⟩
  · cases more with
    | nil => exact ⟨by simpa using longer.symm, by simpa using rest⟩
    | cons x more =>
        obtain ⟨rfl, -⟩ := List.cons.inj rest
        exact absurd (longer ▸ h') (ends l more h)
  · cases more with
    | nil => exact ⟨by simpa using longer, by simpa using rest.symm⟩
    | cons x more =>
        obtain ⟨rfl, -⟩ := List.cons.inj rest
        exact absurd (longer ▸ h) (ends l' more h')

/-- Template text is no bracket, whatever it holds. -/
theorem Lexeme.avoids_chunk {words : List String} {follows leads : Bool} {raw : String} :
    (chunk follows leads raw).Avoids words := fun _ reads => by cases reads

/-- A template is written as its chunks and its substitutions. -/
theorem Fragment.cases_of_mem_templatePieces {f : Fragment} {pieces : List TemplatePiece}
    {total done : Nat} (member : f ∈ TemplatePiece.fragments total done pieces) :
    (∃ follows leads raw, f = .lexeme (.chunk follows leads raw)) ∨ .code f ∈ pieces := by
  induction pieces generalizing done with
  | nil => cases member
  | cons piece pieces ih =>
      cases piece with
      | text raw =>
          rcases List.mem_cons.1 member with rfl | later
          · exact .inl ⟨_, _, _, rfl⟩
          · exact (ih later).imp_right (List.mem_cons_of_mem _)
      | code g =>
          rcases List.mem_cons.1 member with rfl | later
          · exact .inr List.mem_cons_self
          · exact (ih later).imp_right (List.mem_cons_of_mem _)

/-! ## Composed lexemes -/

/-- **Brackets match** in all that is put together by the rules, if no leaf is a bracket. -/
theorem Composed.balanced {admits : Leaf → Prop}
    (noBracket : ∀ leaf, admits leaf → leaf.Avoids bracketTexts) {s : Standing} {b : Bool}
    {l : List Lexeme} (h : Composed admits s b l) : Balanced l := by
  have word {text : String} {m : List Lexeme} (plain : text ∉ bracketTexts) (rest : Balanced m) :
      Balanced (.verbatim text :: m) := rest.cons (Lexeme.avoids_verbatim.2 plain) trivial
  have words : (∀ text ∈ finishedTexts, text ∉ bracketTexts) ∧
      (∀ text ∈ infixTexts, text ∉ bracketTexts) ∧ ∀ text ∈ prefixTexts, text ∉ bracketTexts := by
    decide
  obtain ⟨finishedTexts, infixTexts, prefixTexts⟩ := words
  induction h with
  | nil => exact .nil
  | append _ _ left right => exact left.append right
  | operand _ ih => exact ih
  | andThen _ _ left right => exact left.append right
  | leaf admitted written => exact .single (noBracket _ admitted _ written) trivial
  | infinity => exact .single (by simp [Lexeme.Avoids, Lexeme.word?]) trivial
  | word text finished => exact word (finishedTexts _ finished) .nil
  | prefixed text operator _ ih => exact word (prefixTexts _ operator) ih
  | infixed operator _ _ left right => exact left.append (word (infixTexts _ operator) right)
  | isIn _ _ left right => exact left.append (word (by decide) right)
  | starred _ ih => exact word (by decide) ih
  | member admitted _ ih =>
      exact ih.append (word (by decide) (.single (noBracket _ admitted _ rfl) trivial))
  | newTarget => exact word (by decide) (word (by decide) (word (by decide) .nil))
  | paren _ ih => exact ih.paren
  | bracket _ ih => exact ih.bracket
  | brace _ ih => exact ih.brace
  | @template b d parts _ _ ih =>
      have pieces : ∀ f ∈ Fragment.TemplatePiece.fragments
          (parts.fragment.countP Fragment.TemplatePiece.isText) 0 parts.fragment,
          Balanced (f.lexemes d) := by
        intro f member
        rcases Fragment.cases_of_mem_templatePieces member with ⟨follows, leads, raw, rfl⟩ | code
        · simpa using ExposesOnly.single Lexeme.avoids_chunk trivial
        · exact ih f code
      rw [Fragment.lexemes_template]
      exact (word (by decide) (.flatMap pieces)).append (word (by decide) .nil)

end EcmaScribe
