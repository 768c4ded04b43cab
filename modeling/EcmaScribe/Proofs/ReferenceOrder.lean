/-
# EcmaScribe.Proofs.ReferenceOrder -- references in the order in which names are written

`Node.references` lists how a script uses its variables, by going through the tree on its own.
The walk that writes the tree meets the same names.  Here that walk notes what it is asked for and
writes, in the place of each name, a label with the number of the question (`labelled`).  Then
`Node.references_eq_met` says: what it has noted are the references, one for one and in order,
and the labels stand in the script in the order of their numbers, except for those of the names
that are not written.

`Tracks` is what holds of the walk of every tree: it notes the references of the tree, and its
output holds the labels of what it has noted.  The rules for it (`Tracks.one` to `Tracks.four`)
follow the number of children; `Node.tracks` is the induction.
-/
import EcmaScribe.Proofs.Fragment.VarNames
import EcmaScribe.Proofs.Tree.Composed
import EcmaScribe.Proofs.Tree.Occurrence

namespace EcmaScribe

set_option autoImplicit false

/-- What the name of a reference is. -/
def Reference.role (r : Reference) : NameRole :=
  match r.usage with
  | .binding => .bound
  | .expression => .used
  | .assignment | .compoundAssignment | .update => .assigned

/-! ## Labels -/

namespace Occurrence

/-- The reference that an occurrence makes. -/
def reference : Occurrence → Reference
  | bound _ name => { usage := .binding, name }
  | used name => { usage := .expression, name }
  | assigned .plain name => { usage := .assignment, name }
  | assigned .compoundTarget name => { usage := .compoundAssignment, name }
  | assigned .updateOperand name => { usage := .update, name }

/-- What is written for an occurrence that has been met with number `k`. -/
def label? (label : Nat → String) (o : Occurrence) (k : Nat) : Option Lexeme :=
  if o.isWritten then some (.name o.role (label k)) else none

/-- The labels of occurrences that have been met from number `k` on. -/
def labels (label : Nat → String) (k : Nat) (met : List Occurrence) : List Lexeme :=
  (met.zipIdx k).filterMap fun (o, k) => o.label? label k

theorem labels_append (label : Nat → String) (k : Nat) (l m : List Occurrence) :
    labels label k (l ++ m) = labels label k l ++ labels label (k + l.length) m := by
  rw [labels, List.zipIdx_append, List.filterMap_append, labels, labels]

/-- Note an occurrence and write its label. -/
def labelled (label : Nat → String) (o : Occurrence) : StateM (List Occurrence) Fragment :=
  modifyGet fun met => (.lexeme (.name o.role (label met.length)), met ++ [o])

end Occurrence

/-! ## Walks that track references -/

/-- The names of variables in what a tree is turned into. -/
@[simp] def Category.varNames : (c : Category) → c.Output → List Lexeme
  | .list c => fun fs => fs.flatMap c.varNames
  | .option c => fun f => f.toList.flatMap c.varNames
  | .templatePart => Fragment.TemplatePiece.varNames
  | .program | .directive | .moduleItem | .importSpecifier | .exportDeclaration
  | .exportFromSpecifier | .exportLocalSpecifier | .exportDefaultBody | .statement | .block
  | .loopBinding | .loopInit | .switchCase | .switchDefault | .catchClause
  | .variableDeclaration | .declarator | .functionDeclaration | .classDeclaration | .parameters
  | .functionBody | .arrowBody | .classElement | .method | .expression | .subject | .argument
  | .property | .propertyName | .boundName | .usedName | .assignedName | .binding | .parameter
  | .bindingProperty | .target | .simpleTarget | .targetElement | .targetProperty =>
      Fragment.varNames

/-- A walk notes the given references, and its output holds some names and then the labels of what
it has noted. -/
def Tracks (label : Nat → String) (before : List Lexeme) {α : Type}
    (walk : StateM (List Occurrence) α) (varNames : α → List Lexeme)
    (references : List Reference) : Prop :=
  ∀ met, ∃ out new, walk.run met = (out, met ++ new) ∧
    new.map Occurrence.reference = references ∧
    varNames out = before ++ Occurrence.labels label met.length new

section Rules

variable {label : Nat → String} {before : List Lexeme}
  {α β γ δ ε : Type} {x : StateM (List Occurrence) α} {y : StateM (List Occurrence) β}
  {z : StateM (List Occurrence) γ} {u : StateM (List Occurrence) δ}
  {nx : α → List Lexeme} {ny : β → List Lexeme} {nz : γ → List Lexeme} {nu : δ → List Lexeme}
  {names : ε → List Lexeme} {q r s t : List Reference}

theorem tracks_pure {out : α} (same : nx out = before) : Tracks label before (pure out) nx [] :=
  fun met => ⟨out, [], by rw [List.append_nil]; rfl, rfl, by simp [same, Occurrence.labels]⟩

/-- What comes later in a walk comes later in the output. -/
theorem Tracks.bind (hx : Tracks label before x nx q) {k : α → StateM (List Occurrence) ε}
    (hk : ∀ a, Tracks label (nx a) (k a) names r) :
    Tracks label before (x >>= k) names (q ++ r) := by
  intro met
  obtain ⟨a, new, ran, noted, labelled⟩ := hx met
  obtain ⟨out, later, ran', noted', labelled'⟩ := hk a (met ++ new)
  refine ⟨out, new ++ later, ?_, by rw [List.map_append, noted, noted'], ?_⟩
  · rw [StateT.run_bind, ran]
    show (k a).run (met ++ new) = _
    rw [ran', List.append_assoc]
  · rw [labelled', labelled, Occurrence.labels_append, List.length_append, List.append_assoc]

theorem Tracks.congr (hx : Tracks label before x nx q) (same : q = r) :
    Tracks label before x nx r := same ▸ hx

/-- A walk tracks the same behind names that stand in the output already. -/
theorem Tracks.after (hx : Tracks label [] x nx q) (before : List Lexeme) :
    Tracks label before x (fun a => before ++ nx a) q := by
  intro met
  obtain ⟨a, new, ran, noted, labelled⟩ := hx met
  exact ⟨a, new, ran, noted, congrArg (before ++ ·) labelled⟩

theorem Tracks.one (hx : Tracks label [] x nx q) {f : α → ε} (same : ∀ a, names (f a) = nx a) :
    Tracks label [] (do return f (← x)) names q := by
  simpa using hx.bind fun a => tracks_pure (same a)

theorem Tracks.two (hx : Tracks label [] x nx q) (hy : Tracks label [] y ny r) {f : α → β → ε}
    (same : ∀ a b, names (f a b) = nx a ++ ny b) :
    Tracks label [] (do return f (← x) (← y)) names (q ++ r) := by
  simpa using hx.bind fun a => (hy.after (nx a)).bind fun b => tracks_pure (same a b)

theorem Tracks.three (hx : Tracks label [] x nx q) (hy : Tracks label [] y ny r)
    (hz : Tracks label [] z nz s) {f : α → β → γ → ε}
    (same : ∀ a b c, names (f a b c) = nx a ++ ny b ++ nz c) :
    Tracks label [] (do return f (← x) (← y) (← z)) names (q ++ r ++ s) := by
  simpa using hx.bind fun a => (hy.after (nx a)).bind fun b =>
    (hz.after (nx a ++ ny b)).bind fun c => tracks_pure (same a b c)

theorem Tracks.four (hx : Tracks label [] x nx q) (hy : Tracks label [] y ny r)
    (hz : Tracks label [] z nz s) (hu : Tracks label [] u nu t) {f : α → β → γ → δ → ε}
    (same : ∀ a b c d, names (f a b c d) = nx a ++ ny b ++ nz c ++ nu d) :
    Tracks label [] (do return f (← x) (← y) (← z) (← u)) names (q ++ r ++ s ++ t) := by
  simpa using hx.bind fun a => (hy.after (nx a)).bind fun b =>
    (hz.after (nx a ++ ny b)).bind fun c =>
      (hu.after (nx a ++ ny b ++ nz c)).bind fun d => tracks_pure (same a b c d)

end Rules

/-! ## Names -/

section Names

open Occurrence Fragment

variable {label : Nat → String} (visible : ∀ k, label k ≠ "")

include visible

theorem isVariable_label (o : Occurrence) (k : Nat) :
    (Lexeme.name o.role (label k)).isVariable = true := by
  cases o <;> simp [Lexeme.isVariable, role, NameRole.isVariable, visible k]

/-- The walk asks for a name, and the label stands in its place. -/
theorem tracks_labelled {o : Occurrence} (written : o.isWritten = true) :
    Tracks label [] (labelled label o) varNames [o.reference] := by
  intro met
  refine ⟨lexeme (.name o.role (label met.length)), [o], rfl, rfl, ?_⟩
  simp [isVariable_label visible, labels, label?, written]

/-- The name of a declaration is asked for, and its label is left out if the name is. -/
theorem tracks_declaredName (name : Node .boundName) :
    Tracks label [] (labelled label (.bound true name.boundText))
      (fun f => (declaredName name f).toList.flatMap varNames) name.references := by
  intro met
  cases name with
  | boundName text =>
      refine ⟨lexeme (.name .bound (label met.length)), [.bound true text], rfl, rfl, ?_⟩
      have counted := isVariable_label visible (.bound true text) met.length
      by_cases unnamed : text = defaultExportName
      · simp [declaredName, unnamed, labels, label?, isWritten]
      · simpa [declaredName, unnamed, labels, label?, isWritten, role] using counted

/-- A single plain name is the one reference of the parameters. -/
theorem Tracks.arrowHead {params : Node .parameters} {walk : StateM (List Occurrence) Fragment}
    (h : Tracks label [] walk varNames params.references) :
    Tracks label [] (Node.arrowHead (labelled label) params walk) varNames params.references := by
  unfold Node.arrowHead
  cases sole : soleName? params with
  | none => exact h
  | some name =>
      rw [Node.eq_of_soleName? sole]
      exact tracks_labelled visible (o := .bound false name) rfl

end Names

/-! ## Trees -/

/-- Whether the trees of a category make the references to their names themselves.  An assigned
name is judged by the tree around it. -/
def Category.judgesNames : Category → Bool
  | .list c | .option c => c.judgesNames
  | .simpleTarget | .assignedName => false
  | _ => true

/-- Whether the references of a tree can be told from the tree and its place. -/
def Category.isJudged : Category → Bool
  | .list c | .option c => c.judgesNames
  | _ => true

theorem Category.isJudged_of_judgesNames {c : Category} (judges : c.judgesNames = true) :
    c.isJudged = true := by
  cases c with
  | list | option => exact judges
  | _ => rfl

namespace Node

/-- The references of a tree that stands in a place. -/
def referencesAt (place : TargetPlace) {c : Category} (n : Node c) : List Reference :=
  match c, n with
  | .assignedName, .assignedName name => [(Occurrence.assigned place name).reference]
  | .simpleTarget, .targetName (.assignedName name) =>
      [(Occurrence.assigned place name).reference]
  | _, n => n.references

theorem referencesAt_of_judgesNames {place : TargetPlace} {c : Category}
    (judges : c.judgesNames = true) (n : Node c) : n.referencesAt place = n.references := by
  unfold referencesAt
  split
  · cases judges
  · cases judges
  · rfl

/-! Assigned names are judged where they stand. -/

theorem references_simpleTarget (target : Node .simpleTarget) :
    (simpleTarget target).references = target.referencesAt .plain := by
  cases target with
  | targetName name => cases name; rfl
  | staticMemberTarget | computedMemberTarget => rfl

theorem references_targetShorthand (name : Node .assignedName) (init : Node (.option .expression)) :
    (targetShorthand name init).references = name.referencesAt .plain ++ init.references := by
  cases name
  rfl

theorem references_compoundAssign (target : Node .simpleTarget) (operator : CompoundOperator)
    (value : Expression) : (compoundAssign target operator value).references =
      target.referencesAt .compoundTarget ++ value.references := by
  cases target with
  | targetName name => cases name; rfl
  | staticMemberTarget | computedMemberTarget => rfl

theorem references_update (leading : Bool) (operator : UpdateOperator)
    (operand : Node .simpleTarget) : (update leading operator operand).references =
      operand.referencesAt .updateOperand := by
  cases operand with
  | targetName name => cases name; rfl
  | staticMemberTarget | computedMemberTarget => rfl

open Occurrence

variable {label : Nat → String}

/-- What the walk of an optional child tracks, the walk of the child does. -/
theorem tracks_of_some {c : Category} {child : Node c} {place : TargetPlace}
    {references : List Reference}
    (h : Tracks label [] ((some child).fragmentWith (labelled label) place)
      (Category.varNames (.option c)) references) :
    Tracks label [] (child.fragmentWith (labelled label) .plain) c.varNames references := by
  intro met
  obtain ⟨out, new, ran, noted, names⟩ := h met
  cases walked : (child.fragmentWith (labelled label) .plain).run met with
  | mk a later =>
      have same : (Option.some a, later) = (out, met ++ new) := by
        rw [← ran]
        show _ = (do return Option.some (← child.fragmentWith (labelled label) .plain)).run met
        rw [StateT.run_bind, walked]
        rfl
      cases same
      exact ⟨a, new, rfl, noted, by simpa using names⟩

/-- **The walk of a tree tracks its references.** -/
theorem tracks (visible : ∀ k, label k ≠ "") {c : Category} (n : Node c)
    (judged : c.isJudged = true) (place : TargetPlace) :
    Tracks label [] (n.fragmentWith (labelled label) place) c.varNames (n.referencesAt place) := by
  induction n generalizing place with
  -- sequences and optional children
  | cons head tail ih₁ ih₂ =>
      have first := ih₁ (Category.isJudged_of_judgesNames judged) .plain
      rw [referencesAt_of_judgesNames judged] at first
      exact first.two (ih₂ judged .plain) (by simp)
  | some child ih =>
      have inner := ih (Category.isJudged_of_judgesNames judged) .plain
      rw [referencesAt_of_judgesNames judged] at inner
      exact inner.one (by simp)
  -- names
  | boundName | usedName | assignedName => exact tracks_labelled visible rfl
  -- trees that are written like their one part
  | itemStatement _ ih | exportFunction _ ih | exportClass _ ih | defaultFunction _ ih
  | defaultClass _ ih | blockStatement _ ih | functionStatement _ ih | classStatement _ ih
  | loopVariables _ ih | loopTarget _ ih | initVariables _ ih | arrowBlock _ ih | identifier _ ih
  | subject _ ih | shorthand _ ih | methodProperty _ ih | bindingName _ ih | parameter _ ih
  | targetElement _ ih => exact ih rfl .plain
  | targetName name ih =>
      cases name
      exact ih rfl place
  | simpleTarget target ih =>
      show Tracks _ _ _ _ (simpleTarget target).references
      rw [references_simpleTarget]
      exact ih rfl .plain
  -- one part
  | exported _ ih | exportFrom _ _ ih | exportLocals _ ih | exportDefault _ ih
  | importSpecifier _ _ ih | exportVariables _ ih | defaultExpression _ ih | evaluate _ ih
  | labeled _ _ ih | returnValue _ ih | throw _ ih | declare _ ih | block _ ih
  | initExpression _ ih | switchDefault _ ih | variableDeclaration _ _ ih | arrowResult _ ih
  | classElement _ _ ih | array _ ih | await _ ih | object _ ih | staticMember _ _ ih
  | unary _ _ ih | yieldFrom _ ih | spread _ ih | argument _ ih | substitution _ ih
  | computedName _ ih | objectBinding _ ih | staticMemberTarget _ _ ih | objectTarget _ ih =>
      exact (ih rfl .plain).one
        (by simp [apply_ite, Lexeme.isVariable, NameRole.isVariable])
  | update _ _ operand ih =>
      show Tracks _ _ _ _ (update _ _ operand).references
      rw [references_update]
      exact (ih rfl .updateOperand).one (by simp [apply_ite])
  -- two parts
  | script _ _ ih₁ ih₂ | moduleRoot _ _ ih₁ ih₂ | importNames _ _ _ ih₁ ih₂
  | importNamespace _ _ _ ih₁ ih₂ | doWhile _ _ ih₁ ih₂ | switch _ _ ih₁ ih₂
  | tryCatch _ _ ih₁ ih₂ | whileLoop _ _ ih₁ ih₂ | withObject _ _ ih₁ ih₂
  | switchCase _ _ ih₁ ih₂ | catchClause _ _ ih₁ ih₂ | parameters _ _ ih₁ ih₂
  | functionBody _ _ ih₁ ih₂ | getter _ _ ih₁ ih₂ | assign _ _ ih₁ ih₂ | binary _ _ _ ih₁ ih₂
  | call _ _ ih₁ ih₂ | computedMember _ _ ih₁ ih₂ | dataProperty _ _ ih₁ ih₂
  | arrayBinding _ _ ih₁ ih₂ | bindingWithDefault _ _ ih₁ ih₂ | bindingProperty _ _ ih₁ ih₂
  | computedMemberTarget _ _ ih₁ ih₂ | arrayTarget _ _ ih₁ ih₂ | targetWithDefault _ _ ih₁ ih₂
  | targetProperty _ _ ih₁ ih₂ =>
      exact (ih₁ rfl .plain).two (ih₂ rfl .plain) (by simp)
  | compoundAssign target _ _ ih₁ ih₂ =>
      show Tracks _ _ _ _ (compoundAssign target _ _).references
      rw [references_compoundAssign]
      exact (ih₁ rfl .compoundTarget).two (ih₂ rfl .plain) (by simp)
  -- three and four parts
  | forIn _ _ _ ih₁ ih₂ ih₃ | forOf _ _ _ ih₁ ih₂ ih₃
  | tryFinally _ _ _ ih₁ ih₂ ih₃ | method _ _ _ _ _ ih₁ ih₂ ih₃ | setter _ _ _ ih₁ ih₂ ih₃
  | conditional _ _ _ ih₁ ih₂ ih₃ | functionExpression _ _ _ _ _ ih₁ ih₂ ih₃ =>
      exact (ih₁ rfl .plain).three (ih₂ rfl .plain) (ih₃ rfl .plain) (by simp)
  | ifElse _ _ _ ih₁ ih₂ ih₃ =>
      refine (ih₁ rfl .plain).three (ih₂ rfl .plain) (ih₃ rfl .plain) fun head f other => ?_
      cases other <;> simp [apply_ite]
  | forLoop _ _ _ _ ih₁ ih₂ ih₃ ih₄ =>
      refine (ih₁ rfl .plain).four (ih₂ rfl .plain) (ih₃ rfl .plain) (ih₄ rfl .plain)
        fun init test advance body => ?_
      cases init <;> cases test <;> cases advance <;> simp
  | switchWithDefault _ _ _ _ ih₁ ih₂ ih₃ ih₄ =>
      exact (ih₁ rfl .plain).four (ih₂ rfl .plain) (ih₃ rfl .plain) (ih₄ rfl .plain)
        (by simp)
  -- trees that are written differently without one of their parts
  | exportLocalSpecifier _ outer ih =>
      cases outer with
      | none => exact ih rfl .plain
      | some outer => exact (ih rfl .plain).one (by simp)
  | declarator _ init ih₁ ih₂ | bindingShorthand _ init ih₁ ih₂ =>
      cases init with
      | none => exact (ih₁ rfl .plain).congr (List.append_nil _).symm
      | some init =>
          exact (ih₁ rfl .plain).two (tracks_of_some (ih₂ rfl .plain)) (by simp)
  | targetShorthand name init ih₁ ih₂ =>
      show Tracks _ _ _ _ (targetShorthand name init).references
      rw [references_targetShorthand]
      cases init with
      | none => exact (ih₁ rfl .plain).congr (List.append_nil _).symm
      | some init =>
          exact (ih₁ rfl .plain).two (tracks_of_some (ih₂ rfl .plain)) (by simp)
  | «yield» value ih =>
      cases value with
      | none => exact tracks_pure (by simp)
      | some value =>
          exact (tracks_of_some (ih rfl .plain)).one (by simp)
  | new _ arguments ih₁ ih₂ =>
      cases arguments with
      | nil =>
          exact ((ih₁ rfl .plain).one (by simp)).congr (List.append_nil _).symm
      | cons head tail => exact (ih₁ rfl .plain).two (ih₂ rfl .plain) (by simp)
  | template tag _ ih₁ ih₂ =>
      cases tag with
      | none => exact (ih₂ rfl .plain).one (by simp)
      | some tag =>
          exact (tracks_of_some (ih₁ rfl .plain)).two (ih₂ rfl .plain) (by simp)
  | classExpression name heritage elements ih₁ ih₂ ih₃ =>
      cases heritage with
      | none =>
          have named := (ih₁ rfl .plain).congr (List.append_nil name.references).symm
          exact named.two (ih₃ rfl .plain) (by simp)
      | some heritage =>
          exact (ih₁ rfl .plain).three (tracks_of_some (ih₂ rfl .plain)) (ih₃ rfl .plain)
            (by simp)
  -- names that the walk does not reach through their node
  | functionDeclaration _ _ name _ _ _ ih₂ ih₃ =>
      exact (tracks_declaredName visible name).three (ih₂ rfl .plain) (ih₃ rfl .plain)
        (by simp)
  | classDeclaration name heritage _ _ ih₂ ih₃ =>
      have named := tracks_declaredName visible name
      cases heritage with
      | none =>
          exact (named.congr (List.append_nil name.references).symm).two (ih₃ rfl .plain)
            (by simp)
      | some heritage =>
          exact named.three (tracks_of_some (ih₂ rfl .plain)) (ih₃ rfl .plain)
            (by simp)
  | arrow _ params _ ih₁ ih₂ =>
      exact ((ih₁ rfl .plain).arrowHead visible).two (ih₂ rfl .plain) (by simp)
  | exportFromSpecifier _ outer =>
      cases outer <;> exact tracks_pure (by simp)
  -- trees without names
  | nil | none | directive | exportAll | breakTo | continueTo | debugger | empty | boolean
  | infinity | null | number | regExp | string | newTarget | thisValue | superObject | chunk
  | staticName =>
      exact tracks_pure (by simp [Lexeme.isVariable, NameRole.isVariable])

/-- **References are the names met in writing.**  Going through a program for its references and
writing it come upon the same names in the same order, and agree on what each name is and on the
access that it makes.  A label in the place of each name is written where the name is: all of them
once and in order, but for those of the declarations without a name to write. -/
theorem references_eq_met (program : Program) (visible : ∀ k, label k ≠ "") :
    program.fragmentWith (m := Id) Occurrence.fragment .plain = program.fragment ∧
      ∃ f met, (program.fragmentWith (labelled label) .plain).run [] = (f, met) ∧
        program.references.map (fun r => (r.role, r.name, r.access)) =
          met.map (fun o => (o.role, o.name, o.access)) ∧
        (f.lexemes false).filter Lexeme.isVariable = labels label 0 met := by
  obtain ⟨f, met, ran, noted, names⟩ := tracks visible program rfl .plain []
  refine ⟨fragmentWith_eq_fragment .plain program, f, met, ran, ?_, ?_⟩
  · have kept (o : Occurrence) : (o.reference.role, o.reference.name, o.reference.access) =
        (o.role, o.name, o.access) := by
      cases o with
      | bound | used => rfl
      | assigned place name => cases place <;> rfl
    rw [show program.references = met.map Occurrence.reference from noted.symm, List.map_map]
    exact List.map_congr_left fun o _ => kept o
  · rw [Fragment.filter_lexemes]
    exact names

/-- A default export without a name, whose body assigns to a pattern with a default value, and
to a variable that it adds an updated one to. -/
def namelessExport : Program :=
  .moduleRoot .nil (.cons (.exportDefault (.defaultFunction (.functionDeclaration false false
    (.boundName "*default*") (.parameters .nil .none) (.functionBody .nil
      (.cons (.evaluate (.assign
        (.arrayTarget (.cons (.some (.targetWithDefault (.simpleTarget (.targetName
          (.assignedName "a"))) (.identifier (.usedName "b")))) .nil) .none)
        (.identifier (.usedName "a"))))
      (.cons (.evaluate (.compoundAssign (.targetName (.assignedName "a")) .plus
        (.update false .increment (.targetName (.assignedName "b"))))) .nil)))))) .nil)

theorem references_namelessExport : (∀ k : Nat, String.ofList (List.replicate (k + 1) '#') ≠ "") ∧
    namelessExport.references.map (fun r => (r.role, r.name, r.access)) =
      [(.bound, "*default*", .write), (.assigned, "a", .write), (.used, "b", .read),
        (.used, "a", .read), (.assigned, "a", .readWrite), (.assigned, "b", .readWrite)] ∧
    ∃ f met, (namelessExport.fragmentWith
        (labelled fun k => String.ofList (List.replicate (k + 1) '#')) .plain).run [] = (f, met) ∧
      (f.lexemes false).filter Lexeme.isVariable =
        [.name .assigned "##", .name .used "###", .name .used "####", .name .assigned "#####",
          .name .assigned "######"] := by
  have visible (k : Nat) : String.ofList (List.replicate (k + 1) '#') ≠ "" := by
    simp [List.replicate_succ]
  obtain ⟨-, f, met, ran, -, written⟩ := references_eq_met namelessExport visible
  refine ⟨visible, by decide, f, met, ran, written.trans ?_⟩
  have noted := congrArg Prod.snd ran
  rw [← show _ = met from noted]
  rfl

end Node

end EcmaScribe
