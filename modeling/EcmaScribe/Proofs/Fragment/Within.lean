/-
# EcmaScribe.Proofs.Fragment.Within -- where a part of a fragment is written

A fragment stands within another one if it is reached by going down from parent to child
(`Within`).  What it writes then stands in one piece in what the whole writes
(`Within.exists_steps`), be it with a bare `in` allowed or not.

Each phrase has its parts within it.
-/
import EcmaScribe.Proofs.Fragment.Lexemes

namespace EcmaScribe

set_option autoImplicit false

namespace Fragment

/-- The fragment stands within another one. -/
inductive Within (p : Fragment) : Fragment → Prop
  | here : Within p p
  | seq {f : Fragment} {fs : List Fragment} (member : f ∈ fs) (h : Within p f) : Within p (seq fs)
  | lines {f : Fragment} {fs : List Fragment} (member : f ∈ fs) (h : Within p f) :
      Within p (lines fs)
  | commaSep {f : Fragment} {fs : List Fragment} (member : f ∈ fs) (h : Within p f) :
      Within p (commaSep fs)
  | paren {f : Fragment} (h : Within p f) : Within p (paren f)
  | bracket {f : Fragment} (h : Within p f) : Within p (bracket f)
  | brace {f : Fragment} (h : Within p f) : Within p (brace f)
  | indent {f : Fragment} (h : Within p f) : Within p (indent f)
  | noIn {f : Fragment} (h : Within p f) : Within p (noIn f)
  | containsIn {f : Fragment} (h : Within p f) : Within p (containsIn f)
  | marked {f : Fragment} (mark : Mark) (h : Within p f) : Within p (marked mark f)

/-! ## What is written for a part -/

theorem allBlank_eq_false {f : Fragment} {fs : List Fragment} (member : f ∈ fs)
    (written : f.isBlank = false) : allBlank fs = false := by
  induction fs with
  | nil => cases member
  | cons g fs ih =>
      rcases List.mem_cons.1 member with rfl | later
      · simp [allBlank, written]
      · simp [allBlank, ih later]

namespace Within

variable {p f : Fragment}

/-- No fragment drops a part that is not blank. -/
theorem isBlank (h : Within p f) (written : p.isBlank = false) : f.isBlank = false := by
  induction h with
  | here => exact written
  | seq member _ ih | lines member _ ih =>
      simpa [Fragment.isBlank] using allBlank_eq_false member ih
  | commaSep member =>
      simpa [Fragment.isBlank, List.isEmpty_eq_false_iff] using List.ne_nil_of_mem member
  | paren | bracket | brace => simp [Fragment.isBlank]
  | indent _ ih | noIn _ ih | containsIn _ ih | marked _ _ ih => simpa [Fragment.isBlank] using ih

end Within

/-- The instructions of a child stand together in those of its siblings. -/
theorem exists_stepsAll {f : Fragment} {fs : List Fragment} (member : f ∈ fs) (b : Bool) :
    ∃ before after, stepsAll b fs = before ++ f.steps b ++ after := by
  induction fs with
  | nil => cases member
  | cons g fs ih =>
      rcases List.mem_cons.1 member with rfl | later
      · exact ⟨[], stepsAll b fs, by simp [stepsAll]⟩
      · obtain ⟨before, after, whole⟩ := ih later
        exact ⟨g.steps b ++ before, after, by simp [stepsAll, whole]⟩

theorem exists_stepsCommas {f : Fragment} {fs : List Fragment} (member : f ∈ fs) (b first : Bool) :
    ∃ before after, stepsCommas b first fs = before ++ f.steps b ++ after := by
  induction fs generalizing first with
  | nil => cases member
  | cons g fs ih =>
      rw [stepsCommas]
      rcases List.mem_cons.1 member with rfl | later
      · exact ⟨_, _, rfl⟩
      · obtain ⟨before, after, whole⟩ := ih later false
        exact ⟨(if first then [] else [.put (.verbatim ","), .space]) ++ g.steps b ++ before, after,
          by simp [whole]⟩

theorem exists_stepsLines {f : Fragment} {fs : List Fragment} (member : f ∈ fs)
    (written : f.isBlank = false) (b first : Bool) :
    ∃ before after, stepsLines b first fs = before ++ f.steps b ++ after := by
  induction fs generalizing first with
  | nil => cases member
  | cons g fs ih =>
      rw [stepsLines]
      rcases List.mem_cons.1 member with rfl | later
      · rw [written, if_neg Bool.false_ne_true]
        exact ⟨_, _, rfl⟩
      · split
        · exact ih later first
        · obtain ⟨before, after, whole⟩ := ih later false
          exact ⟨(if first then [] else [.lineBreak]) ++ g.steps b ++ before, after,
            by simp [whole]⟩

/-- **The instructions of a part** stand together in those of the whole. -/
theorem Within.exists_steps {p f : Fragment} (h : Within p f) (written : p.isBlank = false)
    (b : Bool) : ∃ before noIn after, f.steps b = before ++ p.steps noIn ++ after := by
  have wrapped {g : Fragment} {b : Bool} (left right : List (Step Lexeme))
      (inside : ∃ before noIn after, g.steps b = before ++ p.steps noIn ++ after) :
      ∃ before noIn after, left ++ g.steps b ++ right = before ++ p.steps noIn ++ after := by
    obtain ⟨before, noIn, after, whole⟩ := inside
    exact ⟨left ++ before, noIn, after ++ right, by simp [whole]⟩
  induction h generalizing b with
  | here => exact ⟨[], b, [], by simp⟩
  | seq member _ ih =>
      obtain ⟨left, right, whole⟩ := exists_stepsAll member b
      rw [steps, whole]
      exact wrapped left right (ih b)
  | lines member inside ih =>
      obtain ⟨left, right, whole⟩ := exists_stepsLines member (inside.isBlank written) b true
      rw [steps, whole]
      exact wrapped left right (ih b)
  | commaSep member _ ih =>
      obtain ⟨left, right, whole⟩ := exists_stepsCommas member b true
      rw [steps, whole]
      exact wrapped left right (ih b)
  | paren _ ih | bracket _ ih | brace _ ih =>
      rw [steps]
      exact wrapped [_] [_] (ih false)
  | indent inside ih =>
      rw [steps, inside.isBlank written, if_neg Bool.false_ne_true]
      exact wrapped [_, _] [_] (ih b)
  | noIn _ ih =>
      rw [steps]
      exact ih true
  | containsIn _ ih =>
      rw [steps]
      split
      · exact wrapped [_] [_] (ih false)
      · exact ih false
  | marked _ _ ih =>
      rw [steps]
      exact ih b

/-- So do its lexemes. -/
theorem Within.exists_lexemes {p f : Fragment} (h : Within p f) (written : p.isBlank = false)
    (b : Bool) : ∃ before noIn after, f.lexemes b = before ++ p.lexemes noIn ++ after := by
  obtain ⟨before, noIn, after, whole⟩ := h.exists_steps written b
  exact ⟨before.filterMap Step.lexeme?, noIn, after.filterMap Step.lexeme?, by
    rw [lexemes, whole, List.filterMap_append, List.filterMap_append, lexemes]⟩

/-! ## The parts of a phrase -/

namespace Within

variable {p f g : Fragment} {fs : List Fragment}

theorem spaced (member : f ∈ fs) (h : Within p f) : Within p (Fragment.spaced fs) := by
  cases fs with
  | nil => cases member
  | cons g fs =>
      refine .seq ?_ h
      rcases List.mem_cons.1 member with rfl | later
      · exact List.mem_cons_self
      · exact List.mem_cons_of_mem _ (List.mem_flatMap.2 ⟨f, later, by simp⟩)

theorem statement (h : Within p f) : Within p (Fragment.statement f) := .seq (by simp) h

theorem parenIf (condition : Bool) (h : Within p f) : Within p (Fragment.parenIf condition f) := by
  cases condition with
  | true => exact h.paren
  | false => exact h

theorem atLeast (required : Precedence) (node : Expression) (h : Within p f) :
    Within p (Fragment.atLeast required node f) := by
  unfold Fragment.atLeast
  split
  · exact h.paren
  · exact h

theorem markedIf (condition : Bool) (mark : Mark) (h : Within p f) :
    Within p (Fragment.markedIf condition mark f) := by
  cases condition with
  | true => exact h.marked mark
  | false => exact h

theorem block (member : f ∈ fs) (h : Within p f) (written : p.isBlank = false) :
    Within p (Fragment.block fs) := by
  have someWritten : allBlank fs = false := allBlank_eq_false member (h.isBlank written)
  rw [Fragment.block, someWritten, if_neg Bool.false_ne_true]
  exact .brace (.seq (f := .indent (.lines fs)) (by simp) (.indent (.lines member h)))

theorem target (node : Expression) (h : Within p f) : Within p (defaulted f node g) :=
  .spaced (by simp) h

theorem value (node : Expression) (h : Within p g) : Within p (defaulted f node g) :=
  .spaced (f := Fragment.atLeast .assignment node g) (by simp) (h.atLeast _ _)

section Heads

variable {word : String} {body : Fragment}

/-- The head of a loop over values. -/
theorem headLeft (h : Within p f) : Within p (Fragment.spaced
    [token "for", .paren (Fragment.spaced [f, token word, g]), body]) := by
  have head : Within p (.paren (Fragment.spaced [f, token word, g])) := .paren (.spaced (by simp) h)
  exact .spaced (by simp) head

theorem headRight (h : Within p g) : Within p (Fragment.spaced
    [token "for", .paren (Fragment.spaced [f, token word, g]), body]) := by
  have head : Within p (.paren (Fragment.spaced [f, token word, g])) := .paren (.spaced (by simp) h)
  exact .spaced (by simp) head

theorem loopBody (h : Within p body) : Within p (Fragment.spaced [token "for", f, body]) :=
  .spaced (by simp) h

/-- The head of a loop with clauses. -/
theorem loopClause (member : f ∈ fs) (h : Within p f) : Within p (Fragment.spaced
    [token "for", .paren (.seq fs), body]) := by
  have head : Within p (.paren (.seq fs)) := .paren (.seq member h)
  exact .spaced (by simp) head

end Heads

theorem key (h : Within p f) : Within p (keyed f g) := .seq (by simp) h

theorem keyedValue (h : Within p g) : Within p (keyed f g) := .seq (by simp) h

theorem rest (h : Within p f) : Within p (Fragment.rest f) := .seq (by simp) h

theorem elements {items : List (Option Fragment)} {item : Option Fragment} (member : item ∈ items)
    (inside : f ∈ item) (h : Within p f) : Within p (Fragment.elements items) := by
  have listed : Within p (.commaSep (items.map (·.getD .empty))) :=
    .commaSep (List.mem_map.2 ⟨item, member, by rw [Option.mem_def.1 inside]; rfl⟩) h
  unfold Fragment.elements
  dsimp only
  split
  · exact .seq (by simp) listed
  · exact listed

theorem elementsOfPattern {items : List (Option Fragment)} {item : Option Fragment}
    {remainder : Option Fragment} (member : item ∈ items) (inside : f ∈ item) (h : Within p f) :
    Within p (arrayPattern items remainder) :=
  .bracket (.elements (List.mem_append_left _ member) inside h)

theorem restOfPattern {items : List (Option Fragment)} {remainder : Option Fragment}
    (inside : f ∈ remainder) (h : Within p f) : Within p (arrayPattern items remainder) :=
  .bracket (.elements
    (List.mem_append_right _ (List.mem_map.2 ⟨f, by simpa using inside, rfl⟩)) rfl h.rest)

theorem objectBraces (member : f ∈ fs) (h : Within p f) : Within p (Fragment.objectBraces fs) :=
  .marked _ (.brace (.commaSep member h))

theorem staticMember (object : Node .subject) (property : String) (h : Within p f) :
    Within p (Fragment.staticMember object f property) :=
  .seq (f := memberObject object f) (by simp) (h.parenIf _)

theorem computedMember (object : Node .subject) (h : Within p f) :
    Within p (Fragment.computedMember object f g) :=
  .markedIf _ _ (.seq (f := memberObject object f) (by simp) (h.parenIf _))

theorem computedKey (object : Node .subject) (h : Within p g) :
    Within p (Fragment.computedMember object f g) :=
  .markedIf _ _ (.seq (f := .bracket g) (by simp) h.bracket)

section Functions

variable {isAsync isGenerator : Bool} {name heritage remainder : Option Fragment}
  {params body : Fragment}

theorem functionName (inside : f ∈ name) (h : Within p f) :
    Within p (function isAsync isGenerator name params body) :=
  .seq (by simp [Option.mem_def.1 inside]) h

theorem functionParams (h : Within p params) :
    Within p (function isAsync isGenerator name params body) := .seq (by simp) h

theorem functionBody (h : Within p body) :
    Within p (function isAsync isGenerator name params body) := .seq (by simp) h

theorem methodName (h : Within p f) : Within p (method isAsync isGenerator f params body) :=
  .seq (by simp) h

theorem methodParams (h : Within p params) : Within p (method isAsync isGenerator f params body) :=
  .seq (by simp) h

theorem methodBody (h : Within p body) : Within p (method isAsync isGenerator f params body) :=
  .seq (by simp) h

theorem accessorName (keyword : String) (h : Within p f) :
    Within p (accessor keyword f params body) := .seq (by simp) h

theorem accessorParam (keyword : String) (h : Within p params) :
    Within p (accessor keyword f params body) := .seq (f := .paren params) (by simp) h.paren

theorem accessorBody (keyword : String) (h : Within p body) :
    Within p (accessor keyword f params body) := .seq (by simp) h

theorem parameterItems (member : f ∈ fs) (h : Within p f) : Within p (parameterList fs remainder) :=
  .paren (.commaSep (List.mem_append_left _ member) h)

theorem parameterRest (inside : f ∈ remainder) (h : Within p f) :
    Within p (parameterList fs remainder) := by
  have member : Fragment.rest f ∈ fs ++ remainder.toList.map Fragment.rest :=
    List.mem_append_right _ (List.mem_map.2 ⟨f, by simpa using inside, rfl⟩)
  exact .paren (.commaSep member h.rest)

theorem className (inside : f ∈ name) (h : Within p f) : Within p (class_ name heritage fs) :=
  .spaced (by simp [Option.mem_def.1 inside]) h

theorem classHeritage (inside : f ∈ heritage) (h : Within p f) :
    Within p (class_ name heritage fs) :=
  .spaced (by simp [Option.mem_def.1 inside]) h

theorem classElements (member : f ∈ fs) (h : Within p f) (written : p.isBlank = false) :
    Within p (class_ name heritage fs) :=
  .spaced (f := Fragment.block fs) (by simp) (.block member h written)

end Functions

theorem binaryLeft (left : Expression) (operator : BinaryOperator) (right : Expression)
    (h : Within p f) : Within p (binary left operator right f g) := by
  have operand : Within p (binaryOperands left operator right f g).1 := by
    unfold binaryOperands
    dsimp only
    split
    · exact h.parenIf _
    · exact h.atLeast _ _
  unfold Fragment.binary
  dsimp only
  split
  · exact .seq (by simp) operand
  · exact .containsIn (.spaced (by simp) operand)
  · exact .spaced (by simp) operand

theorem binaryRight (left : Expression) (operator : BinaryOperator) (right : Expression)
    (h : Within p g) : Within p (binary left operator right f g) := by
  have operand : Within p (binaryOperands left operator right f g).2 := by
    unfold binaryOperands
    dsimp only
    split
    · exact h.atLeast _ _
    · exact h.parenIf _
  unfold Fragment.binary
  dsimp only
  split
  · exact .seq (by simp) operand
  · exact .containsIn (.spaced (by simp) operand)
  · exact .spaced (by simp) operand

theorem unary (operator : UnaryOperator) (operand : Expression) (h : Within p f) :
    Within p (Fragment.unary operator operand f) := by
  unfold Fragment.unary
  dsimp only
  split
  · exact .spaced (by simp) (h.atLeast .prefixed operand)
  · exact .seq (by simp) (h.atLeast .prefixed operand)

theorem templateTag {tag : Option Fragment} {pieces : List TemplatePiece} (inside : f ∈ tag)
    (h : Within p f) : Within p (template tag pieces) :=
  .seq (by simp [Option.mem_def.1 inside]) h

theorem mem_templateFragments {pieces : List TemplatePiece} (member : .code f ∈ pieces)
    (total done : Nat) : f ∈ TemplatePiece.fragments total done pieces := by
  induction pieces generalizing done with
  | nil => cases member
  | cons piece pieces ih =>
      rcases List.mem_cons.1 member with rfl | later
      · exact List.mem_cons_self
      · cases piece <;> exact List.mem_cons_of_mem _ (ih later _)

theorem templateCode {tag : Option Fragment} {pieces : List TemplatePiece}
    (member : .code f ∈ pieces) (h : Within p f) : Within p (template tag pieces) :=
  .seq (by simp [mem_templateFragments member]) h

theorem renamedTo (name : Option Fragment) (h : Within p f) : Within p (renamed name f) := by
  cases name with
  | none => exact h
  | some name =>
      show Within p (Fragment.spaced [name, token "as", f])
      exact .spaced (by simp) h

theorem renamedFrom (h : Within p f) : Within p (renamed (some f) g) := by
  show Within p (Fragment.spaced [f, token "as", g])
  exact .spaced (by simp) h

theorem importedDefault {default : Option Fragment} {specifier : String} (inside : f ∈ default)
    (h : Within p f) : Within p (importNames default fs specifier) := by
  obtain rfl := Option.mem_def.1 inside
  have clause : Within p (.commaSep (f :: if fs.isEmpty then [] else [.brace (.commaSep fs)])) :=
    .commaSep List.mem_cons_self h
  exact .statement (.spaced (by simp) clause)

theorem importedName {default : Option Fragment} {specifier : String} (member : f ∈ fs)
    (h : Within p f) : Within p (importNames default fs specifier) := by
  have nonempty : fs.isEmpty = false := List.isEmpty_eq_false_iff.2 (List.ne_nil_of_mem member)
  have clause : Within p (.commaSep (default.toList ++ [.brace (.commaSep fs)])) :=
    .commaSep (by simp) (.brace (.commaSep member h))
  exact .statement (.spaced (by simp [nonempty]) clause)

theorem importedSpace {default : Option Fragment} {specifier : String} (h : Within p f) :
    Within p (importNamespace default f specifier) := by
  have star : Within p (Fragment.spaced [token "*", token "as", f]) := .spaced (by simp) h
  cases default with
  | none => exact .statement (.spaced (by simp) star)
  | some default =>
      have clause : Within p (.commaSep [default, Fragment.spaced [token "*", token "as", f]]) :=
        .commaSep (by simp) star
      exact .statement (.spaced (by simp) clause)

theorem importedBesideSpace {default : Option Fragment} {specifier : String}
    (inside : f ∈ default) (h : Within p f) : Within p (importNamespace default g specifier) := by
  obtain rfl := Option.mem_def.1 inside
  have clause : Within p (.commaSep [f, Fragment.spaced [token "*", token "as", g]]) :=
    .commaSep (by simp) h
  exact .statement (.spaced (by simp) clause)

end Within

end Fragment

end EcmaScribe
