/-
# EcmaScribe.Proofs.CommaLists -- lists in brackets keep their elements

Arrays, array patterns, arguments and parameters are written as lists between brackets.  A reader
splits such a list at the commas that stand outside nested brackets and substitutions, and takes
a comma at its end for no further element.

`segments_of_mem_commaLists` finds every such list of a program where it is written, up to its own
closing bracket, and says that the reader gets its entries back: each element in one piece, in
their order, nothing for a hole, and three dots in front of what is spread.  Whatever else the
program holds, the substitutions of templates within the list have to stand between chunks, since
a chunk writes their braces: `not_segments_bareSubstitution` is a list in which one does not, and
its comma is read as a separator.
-/
import EcmaScribe.Proofs.TemplateText
import EcmaScribe.Proofs.Tree.Commas

namespace EcmaScribe

set_option autoImplicit false

open Fragment

variable {k : IdentifierClass}

/-! ## Entries -/

/-- What a list has between two of its commas. -/
inductive Entry
  | hole
  | element (f : Fragment)
  /-- An element that is spread, or the rest of a pattern or of the parameters. -/
  | spread (f : Fragment)

namespace Entry

def lexemes : Entry → List Lexeme
  | hole => []
  | element f => f.lexemes false
  | spread f => .verbatim "..." :: f.lexemes false

/-- The entry as an item of `Fragment.elements`. -/
def item? : Entry → Option Fragment
  | hole => none
  | element f => some f
  | spread f => some (rest f)

theorem lexemes_item (e : Entry) : (e.item?.getD empty).lexemes false = e.lexemes := by
  cases e with
  | hole => exact lexemes_empty false
  | element f => rfl
  | spread f => simp [item?, lexemes, rest]

/-- The entry is written in one piece, and it is written at all unless it is a hole. -/
structure Whole (e : Entry) : Prop where
  uncut : ∀ f ∈ e.item?, Uncut f
  written : ∀ f ∈ e.item?, writtenLexemes (f.lexemes false) ≠ []

variable {e : Entry}

theorem Whole.commaFree (whole : e.Whole) : CommaFree ((e.item?.getD empty).lexemes false) := by
  cases found : e.item? with
  | none =>
      rw [Option.getD_none, lexemes_empty]
      exact ExposesOnly.nil
  | some f => exact whole.uncut f found false

/-- Only a hole writes nothing. -/
theorem Whole.writtenLexemes_eq_nil_iff (whole : e.Whole) :
    writtenLexemes e.lexemes = [] ↔ e = hole := by
  constructor
  · intro nothing
    cases e with
    | hole => rfl
    | element f => exact absurd nothing (whole.written f rfl)
    | spread f =>
        rw [lexemes, writtenLexemes_cons (by decide)] at nothing
        cases nothing
  · rintro rfl
    rfl

end Entry

/-- Whether the last entry is a hole. -/
def endsInHole (entries : List Entry) : Bool :=
  match entries.getLast? with
  | some .hole => true
  | _ => false

theorem lexemes_elements (b : Bool) (entries : List Entry) :
    (elements (entries.map Entry.item?)).lexemes b =
      lexemesCommas b true (entries.map fun e => e.item?.getD empty) ++
        if endsInHole entries then [.verbatim ","] else [] := by
  have list : (entries.map Entry.item?).map (·.getD empty) =
      entries.map fun e => e.item?.getD empty := by simp
  unfold elements endsInHole
  rw [list, List.getLast?_map]
  cases last : entries.getLast? with
  | none => simp [lexemes_commaSep]
  | some e => cases e <;> simp [Entry.item?, lexemes_commaSep]

theorem closed_lexemesCommas {b first : Bool} {fs : List Fragment}
    (h : ∀ f ∈ fs, Closed (f.lexemes b)) : Closed (lexemesCommas b first fs) := by
  induction fs generalizing first with
  | nil => exact ExposesOnly.nil
  | cons f fs ih =>
      obtain ⟨head, tail⟩ := List.forall_mem_cons.1 h
      refine Seals.append (Seals.append ?_ head) (ih tail)
      cases first with
      | true => exact ExposesOnly.nil
      | false => exact .word (by decide) trivial

/-- **The entries of a list** are what a reader finds between its commas. -/
theorem segments_elements {entries : List Entry} (whole : ∀ e ∈ entries, e.Whole) :
    segments ((elements (entries.map Entry.item?)).lexemes false) = entries.map Entry.lexemes := by
  have split : entries ≠ [] → splitCommas 0 ((elements (entries.map Entry.item?)).lexemes false) =
      entries.map Entry.lexemes ++ if endsInHole entries then [[]] else [] := by
    cases entries with
    | nil => exact fun nonempty => absurd rfl nonempty
    | cons e es =>
        intro _
        have free : ∀ f ∈ (e :: es).map fun e => e.item?.getD empty, CommaFree (f.lexemes false) :=
          List.forall_mem_map.2 fun e member => (whole e member).commaFree
        have pieces : ((e :: es).map fun e => e.item?.getD empty).map (·.lexemes false) =
            (e :: es).map Entry.lexemes := by
          rw [List.map_map]
          exact List.map_congr_left fun e _ => e.lexemes_item
        rw [lexemes_elements, ← pieces]
        exact splitCommas_lexemesCommas free _
  cases entries with
  | nil => rfl
  | cons e es =>
      unfold segments
      rw [split (List.cons_ne_nil e es)]
      cases hole : endsInHole (e :: es) with
      | true => rw [if_pos rfl, List.getLast?_concat, if_pos rfl, List.dropLast_concat]
      | false =>
          -- the last entry is written, so no segment at the end is empty
          have last : ((e :: es).map Entry.lexemes).getLast? ≠ some [] := by
            rw [List.getLast?_map]
            intro nothing
            obtain ⟨final, found, blank⟩ := Option.map_eq_some_iff.1 nothing
            have own := whole final (List.mem_of_getLast? found)
            obtain rfl := own.writtenLexemes_eq_nil_iff.1 (by rw [blank]; rfl)
            simp [endsInHole, found] at hole
          simp only [Bool.false_eq_true, if_false, List.append_nil, if_neg last]

/-! ## Lists -/

/-- A list between brackets, with the leaves of its entries and what is written for it. -/
structure CommaList where
  opening : String
  closing : String
  entries : List Entry
  leaves : List Leaf
  place : Fragment

/-- The list is written between its brackets, entry by entry. -/
structure CommaList.Regular (list : CommaList) : Prop where
  brackets : list.opening = "(" ∧ list.closing = ")" ∨ list.opening = "[" ∧ list.closing = "]"
  place : ∀ b, list.place.lexemes b = .verbatim list.opening ::
    (elements (list.entries.map Entry.item?)).lexemes false ++ [.verbatim list.closing]
  whole : ∀ e ∈ list.entries, e.Whole

namespace Node

/-- A tree as an entry of a list.  Only the elements of lists are asked. -/
def entry : {c : Category} → Node c → Entry
  | _, some n => n.entry
  | _, spread expression => .spread (atLeast .assignment expression expression.fragment)
  | _, n@(argument _) | _, n@(bindingWithDefault _ _) | _, n@(parameter _)
  | _, n@(targetWithDefault _ _) | _, n@(targetElement _) => .element n.fragment
  | _, _ => .hole

def entries : {c : Category} → Node c → List Entry
  | _, cons head tail => head.entry :: tail.entries
  | _, _ => []

/-- The arguments of a call. -/
def argumentList (arguments : Node (.list .argument)) : CommaList where
  opening := "("
  closing := ")"
  entries := arguments.entries
  leaves := arguments.leaves
  place := .paren (.commaSep arguments.fragment)

/-- The elements of a pattern in brackets, with what is left over. -/
def patternList {c : Category} (elements : Node (.list c)) (remainder : Option Fragment)
    (leaves : List Leaf) (place : Fragment) : CommaList where
  opening := "["
  closing := "]"
  entries := elements.entries ++ remainder.toList.map Entry.spread
  leaves := leaves
  place := place

/-- The parameters of a function, in parentheses. -/
def parameterList : Node .parameters → CommaList
  | params@(parameters items remainder) =>
    { opening := "("
      closing := ")"
      entries := items.entries ++ remainder.fragment.toList.map Entry.spread
      leaves := params.leaves
      place := params.fragment }

/-- A tree tells of the list that it writes.  The parameters of a function are told by the
function, since an arrow function writes a single plain name without parentheses. -/
def ownCommaLists {c : Category} (n : Node c) : List CommaList :=
  match c, n with
  | .expression, .array elements =>
      [patternList elements Option.none elements.leaves (array elements).fragment]
  | .expression, .call _ arguments => [argumentList arguments]
  | .expression, .new _ (.cons first more) => [argumentList (.cons first more)]
  | .expression, .arrow _ params _ =>
      if (soleName? params).isNone then [params.parameterList] else []
  | .expression, .functionExpression _ _ _ params _ => [params.parameterList]
  | .functionDeclaration, .functionDeclaration _ _ _ params _ => [params.parameterList]
  | .method, .method _ _ _ params _ => [params.parameterList]
  | .method, .getter _ _ =>
      [{ opening := "("
         closing := ")"
         entries := []
         leaves := []
         place := .paren .empty }]
  | .method, .setter _ param _ =>
      [{ opening := "("
         closing := ")"
         entries := [param.entry]
         leaves := param.leaves
         place := .paren param.fragment }]
  | .binding, .arrayBinding elements remainder =>
      [patternList elements remainder.fragment (elements.leaves ++ remainder.leaves)
        (arrayBinding elements remainder).fragment]
  | .target, .arrayTarget elements remainder =>
      [patternList elements remainder.fragment (elements.leaves ++ remainder.leaves)
        (arrayTarget elements remainder).fragment]
  | _, _ => []

/-- The lists in brackets of a tree, at any depth. -/
def commaLists {c : Category} (n : Node c) : List CommaList := n.collect ownCommaLists

end Node

/-! ## What is written for a list -/

/-- The leaf is no punctuation and is written as something. -/
structure Leaf.Plain (leaf : Leaf) : Prop where
  whole : leaf.Whole
  written : Node.Written leaf

theorem Leaf.Named.plain {leaf : Leaf} (named : leaf.Named k) (framed : leaf.Framed) :
    leaf.Plain where
  whole := {
    avoids := fun l written word reads member =>
      named.not_mem_punctuation written reads (List.mem_cons_of_mem _ member)
    framed := framed }
  written := Node.written_of_named fun role text same => by
    rintro rfl
    subst same
    cases named

/-- The fragment is written in one piece, and it is written. -/
structure Fragment.Listed (f : Fragment) : Prop where
  uncut : Uncut f
  operand : Operand Node.Written f

theorem Fragment.Listed.rest {f : Fragment} (listed : Listed f) : Listed (rest f) :=
  ⟨uncut_rest listed.uncut, operand_rest listed.operand⟩

theorem Entry.whole_of_listed {e : Entry} (listed : ∀ f ∈ e.item?, Listed f) : e.Whole where
  uncut f member := (listed f member).uncut
  written f member := by
    have led : Led (f.lexemes false) :=
      Composed.keeps (fun _ l admitted written => admitted l written) ((listed f member).operand false)
    obtain ⟨x, rest, leads, -⟩ := led.leads
    rw [leads]
    exact List.cons_ne_nil x rest

/-- What is proved of the elements of lists. -/
def Category.IsListed : (c : Category) → c.Output → Prop
  | .option c, f => ∀ g ∈ f, c.IsListed g
  | .argument, f | .parameter, f | .binding, f | .targetElement, f | .target, f => Listed f
  | _, _ => True

namespace Node

theorem listed : {c : Category} → (n : Node c) → (∀ leaf ∈ n.leaves, leaf.Plain) →
    c.IsListed n.fragment := by
  intro c
  induction c with
  | option c ih =>
      intro n plain
      cases n with
      | none => intro f written; cases written
      | some n =>
          intro f written
          cases written
          exact ih n (forall_child plain)
  | argument | parameter | binding | targetElement | target =>
      exact fun n plain => ⟨n.uncut fun leaf member => (plain leaf member).whole,
        n.composed fun leaf member => (plain leaf member).written⟩
  | _ => exact fun _ _ => trivial

/-- What the entries of a list are turned into, if each is turned into the item of its entry. -/
theorem map_entries {c : Category} {α : Type} {g : Entry → α} {h : c.Output → α}
    (each : ∀ n : Node c, g n.entry = h n.fragment) (items : Node (.list c)) :
    items.entries.map g = items.fragment.map h := by
  induction items using list_induction with
  | nil => rfl
  | cons head tail ih =>
      show g head.entry :: tail.entries.map g = h head.fragment :: tail.fragment.map h
      rw [each, ih]

theorem forall_mem_entries {admits : Leaf → Prop} {c : Category} {p : Entry → Prop}
    (each : ∀ n : Node c, (∀ leaf ∈ n.leaves, admits leaf) → p n.entry) (items : Node (.list c))
    (h : ∀ leaf ∈ items.leaves, admits leaf) : ∀ e ∈ items.entries, p e := by
  induction items using list_induction with
  | nil => intro e member; cases member
  | cons head tail ih =>
      obtain ⟨hHead, hTail⟩ := forall_two h
      exact List.forall_mem_cons.2 ⟨each head hHead, ih hTail⟩

theorem item_argument (n : Node .argument) : n.entry.item? = Option.some n.fragment := by
  cases n <;> rfl

theorem item_parameter (n : Node .parameter) : n.entry.item? = Option.some n.fragment := by
  cases n <;> rfl

theorem item_targetElement (n : Node .targetElement) :
    n.entry.item? = Option.some n.fragment := by cases n <;> rfl

theorem elements_map_some (fs : List Fragment) : elements (fs.map Option.some) = commaSep fs := by
  have list : (fs.map Option.some).map (·.getD .empty) = fs := by simp [Function.comp_def]
  unfold elements
  rw [list, List.getLast?_map]
  cases fs.getLast? <;> rfl

/-- The items of a list with what is left over. -/
theorem map_item_append (entries : List Entry) (remainder : Option Fragment) :
    (entries ++ remainder.toList.map Entry.spread).map Entry.item? =
      entries.map Entry.item? ++ remainder.toList.map fun f => Option.some (Fragment.rest f) := by
  rw [List.map_append, List.map_map]
  rfl

theorem whole_append {entries : List Entry} {remainder : Option Fragment}
    (whole : ∀ e ∈ entries, e.Whole) (listed : ∀ f ∈ remainder, Listed f) :
    ∀ e ∈ entries ++ remainder.toList.map Entry.spread, e.Whole := by
  refine List.forall_mem_append.2 ⟨whole, List.forall_mem_map.2 fun f member => ?_⟩
  refine Entry.whole_of_listed fun g written => ?_
  cases written
  exact (listed f (by simpa using member)).rest

theorem regular_argumentList {arguments : Node (.list .argument)}
    (plain : ∀ leaf ∈ arguments.leaves, leaf.Plain) : (argumentList arguments).Regular where
  brackets := .inl ⟨rfl, rfl⟩
  place b := by
    have items : arguments.entries.map Entry.item? = arguments.fragment.map Option.some :=
      map_entries item_argument arguments
    show (Fragment.paren (.commaSep arguments.fragment)).lexemes b = .verbatim "(" ::
      (elements (arguments.entries.map Entry.item?)).lexemes false ++ [.verbatim ")"]
    rw [items, elements_map_some, lexemes_paren]
  whole := forall_mem_entries (fun n plain => Entry.whole_of_listed fun f member => by
    rw [item_argument] at member
    cases member
    exact n.listed plain) arguments plain

/-- Elements with holes, given how an element is written. -/
theorem regular_patternList {c : Category} {f : c.Output → Fragment}
    (item : ∀ n : Node c, n.entry.item? = Option.some (f n.fragment))
    (each : ∀ n : Node c, (∀ leaf ∈ n.leaves, leaf.Plain) → Listed (f n.fragment))
    {elements : Node (.list (.option c))} {items : List (Option Fragment)}
    (same : elements.fragment.map (Option.map f) = items)
    (plain : ∀ leaf ∈ elements.leaves, leaf.Plain) {remainder : Option Fragment}
    (listed : ∀ f ∈ remainder, Listed f) (leaves : List Leaf) :
    (patternList elements remainder leaves (arrayPattern items remainder)).Regular where
  brackets := .inr ⟨rfl, rfl⟩
  place b := by
    have place (n : Node (.option c)) : n.entry.item? = n.fragment.map f := by
      cases n with
      | none => rfl
      | some n => exact item n
    have written : elements.entries.map Entry.item? = items :=
      (map_entries place elements).trans same
    show (arrayPattern items remainder).lexemes b = .verbatim "[" :: (Fragment.elements
      ((elements.entries ++ remainder.toList.map Entry.spread).map Entry.item?)).lexemes false ++
        [.verbatim "]"]
    rw [map_item_append, written, arrayPattern, lexemes_bracket]
  whole := by
    refine whole_append (forall_mem_entries (fun n plain => ?_) elements plain) listed
    refine Entry.whole_of_listed fun g member => ?_
    cases n with
    | none => cases member
    | some n =>
        obtain rfl : f n.fragment = g := Option.some.inj ((item n).symm.trans member)
        exact each n (forall_child plain)

theorem regular_parameterList {params : Node .parameters}
    (plain : ∀ leaf ∈ params.parameterList.leaves, leaf.Plain) :
    params.parameterList.Regular := by
  cases params with
  | parameters items remainder =>
      obtain ⟨hItems, hRest⟩ := forall_two plain
      have written : items.entries.map Entry.item? = items.fragment.map Option.some :=
        map_entries item_parameter items
      have last : ∀ f ∈ remainder.fragment, Listed f := remainder.listed hRest
      refine ⟨.inl ⟨rfl, rfl⟩, fun b => ?_, whole_append (forall_mem_entries (fun n plain =>
        Entry.whole_of_listed fun f member => ?_) items hItems) last⟩
      · show (Fragment.parameterList items.fragment remainder.fragment).lexemes b =
          .verbatim "(" :: (elements ((items.entries ++
            remainder.fragment.toList.map Entry.spread).map Entry.item?)).lexemes false ++
              [.verbatim ")"]
        have whole : items.fragment.map Option.some ++
            remainder.fragment.toList.map (fun f => Option.some (Fragment.rest f)) =
            (items.fragment ++ remainder.fragment.toList.map Fragment.rest).map Option.some := by
          simp
        rw [map_item_append, written, whole, elements_map_some, Fragment.parameterList,
          lexemes_paren]
      · rw [item_parameter] at member
        cases member
        exact n.listed plain

/-- A list that a tree tells of stands in its fragment, and it is regular. -/
structure Tells {c : Category} (n : Node c) (list : CommaList) : Prop where
  here : c.Contains list.place n.fragment
  written : list.place.isBlank = false
  regular : (∀ leaf ∈ list.leaves, leaf.Plain) → list.Regular

/-- Parameters that stand in a tree are written there as its list. -/
theorem tells_parameterList {c : Category} {n : Node c} {params : Node .parameters}
    (here : c.Contains params.fragment n.fragment) : n.Tells params.parameterList where
  here := by
    cases params
    exact here
  written := by
    cases params
    rfl
  regular := regular_parameterList

theorem tells_argumentList {c : Category} {n : Node c} {arguments : Node (.list .argument)}
    (here : c.Contains (.paren (.commaSep arguments.fragment)) n.fragment) :
    n.Tells (argumentList arguments) where
  here := here
  written := rfl
  regular := regular_argumentList

theorem tells_of_mem_ownCommaLists {c : Category} (n : Node c) :
    ∀ list ∈ n.ownCommaLists, n.Tells list := by
  intro list member
  unfold ownCommaLists at member
  split at member
  · rename_i elements
    obtain rfl := List.mem_singleton.1 member
    have same : (array elements).fragment = arrayPattern elements.fragment Option.none := by
      show Fragment.bracket _ = Fragment.bracket _
      simp
    refine ⟨.here, rfl, fun plain => ?_⟩
    rw [same]
    exact regular_patternList (c := .argument) (f := id) item_argument
      (fun n plain => n.listed plain) (by simp) plain (by simp) _
  · rename_i callee arguments
    obtain rfl := List.mem_singleton.1 member
    exact tells_argumentList (.seq (by simp) .here)
  · rename_i callee first more
    obtain rfl := List.mem_singleton.1 member
    exact tells_argumentList (.seq (by simp) .here)
  · rename_i isAsync params body
    split at member
    · rename_i bare
      obtain rfl := List.mem_singleton.1 member
      have head : Within params.fragment (spaced [Fragment.arrowParameters params params.fragment,
          token "=>", body.fragment]) := by
        rw [Fragment.arrowParameters, Option.isNone_iff_eq_none.1 bare]
        exact .spaced List.mem_cons_self .here
      exact tells_parameterList (.seq (by simp) head)
    · cases member
  · rename_i isAsync isGenerator name params body
    obtain rfl := List.mem_singleton.1 member
    exact tells_parameterList (.marked _ (.functionParams .here))
  · rename_i isAsync isGenerator name params body
    obtain rfl := List.mem_singleton.1 member
    exact tells_parameterList (.functionParams .here)
  · rename_i isAsync isGenerator name params body
    obtain rfl := List.mem_singleton.1 member
    exact tells_parameterList (.methodParams .here)
  · rename_i name body
    obtain rfl := List.mem_singleton.1 member
    refine ⟨?_, rfl, fun plain => ⟨.inl ⟨rfl, rfl⟩, fun b => ?_, by simp⟩⟩
    · show Within (.paren .empty) (accessor "get" name.fragment .empty body.fragment)
      exact .seq (by simp) .here
    · rw [lexemes_paren, lexemes_empty]
      rfl
  · rename_i name param body
    obtain rfl := List.mem_singleton.1 member
    refine ⟨?_, rfl, fun plain => ⟨.inl ⟨rfl, rfl⟩, fun b => ?_, ?_⟩⟩
    · show Within (.paren param.fragment) (accessor "set" name.fragment param.fragment body.fragment)
      exact .seq (by simp) .here
    · have single : elements [Option.some param.fragment] = commaSep [param.fragment] :=
        elements_map_some [param.fragment]
      rw [List.map_singleton, item_parameter, single, lexemes_paren, lexemes_commaSep]
      simp [lexemesCommas]
    · refine List.forall_mem_singleton.2 (Entry.whole_of_listed fun f member => ?_)
      rw [item_parameter] at member
      cases member
      exact param.listed plain
  · rename_i elements remainder
    obtain rfl := List.mem_singleton.1 member
    refine ⟨.here, rfl, fun plain => ?_⟩
    obtain ⟨hElements, hRest⟩ := List.forall_mem_append.1 plain
    exact regular_patternList (c := .parameter) (f := id) item_parameter
      (fun n plain => n.listed plain) (by simp) hElements (remainder.listed hRest) _
  · rename_i elements remainder
    obtain rfl := List.mem_singleton.1 member
    refine ⟨.here, rfl, fun plain => ?_⟩
    obtain ⟨hElements, hRest⟩ := List.forall_mem_append.1 plain
    exact regular_patternList (c := .targetElement) (f := id) item_targetElement
      (fun n plain => n.listed plain) (by simp) hElements (remainder.listed hRest) _
  · cases member

theorem placed_commaLists : Placed ownCommaLists CommaList.place where
  here n x member := (tells_of_mem_ownCommaLists n x member).here
  written n x member := (tells_of_mem_ownCommaLists n x member).written
  unnamed := rfl
  bare := fun params name sole => by
    rw [eq_of_soleName? sole]
    rfl

/-- **A list in brackets keeps its entries.**  Wherever it is written, it is written alike: between
brackets that match, and the parts between its commas are its entries in their order, a comma at
the end left aside.  Nothing is written for a hole, and only for a hole; what is spread starts
with three dots.  Only the names and the templates within the list matter. -/
theorem segments_of_mem_commaLists {program : Program} {list : CommaList}
    (member : list ∈ program.commaLists) (named : ∀ leaf ∈ list.leaves, leaf.Named k)
    (framed : ∀ leaf ∈ list.leaves, leaf.Framed) : ∃ inner,
      (∀ b, list.place.lexemes b =
        .verbatim list.opening :: inner ++ [.verbatim list.closing]) ∧
      (∃ before after, program.fragment.lexemes false =
        before ++ .verbatim list.opening :: inner ++ .verbatim list.closing :: after) ∧
      (list.opening = "(" ∧ list.closing = ")" ∨ list.opening = "[" ∧ list.closing = "]") ∧
      Closed inner ∧ segments inner = list.entries.map Entry.lexemes ∧
      (∀ e ∈ list.entries, writtenLexemes e.lexemes = [] ↔ e = .hole) ∧
      ∀ f, .spread f ∈ list.entries → ∃ more, (Entry.spread f).lexemes = .verbatim "..." :: more := by
  have plain : ∀ leaf ∈ list.leaves, leaf.Plain := fun leaf listed =>
    (named leaf listed).plain (framed leaf listed)
  have regular : list.Regular := forall_mem_collect_own
    (p := fun list => (∀ leaf ∈ list.leaves, leaf.Plain) → list.Regular)
    (fun n list own => (tells_of_mem_ownCommaLists n list own).regular) program list member plain
  have within : Within list.place program.fragment :=
    contains_of_mem_collect placed_commaLists program list member
  obtain ⟨before, b, after, whole⟩ :=
    within.exists_lexemes (placed_commaLists.written_of_mem program list member) false
  refine ⟨(elements (list.entries.map Entry.item?)).lexemes false, regular.place,
    ⟨before, after, ?_⟩, regular.brackets, ?_, segments_elements regular.whole,
    fun e listed => (regular.whole e listed).writtenLexemes_eq_nil_iff, fun f _ => ⟨_, rfl⟩⟩
  · rw [whole, regular.place b]
    simp
  · rw [lexemes_elements]
    refine Seals.append (closed_lexemesCommas (List.forall_mem_map.2 fun e listed =>
      (regular.whole e listed).commaFree.balanced)) ?_
    split
    · exact .word (by decide) trivial
    · exact ExposesOnly.nil

/-- The elements of `[(a,b),,...c,,]`. -/
def elementsWithHoles : Node (.list (.option .argument)) :=
  .cons (.some (.argument (.binary (.identifier (.usedName "a")) .sequence
    (.identifier (.usedName "b")))))
  (.cons .none
  (.cons (.some (.spread (.identifier (.usedName "c"))))
  (.cons .none .nil)))

/-- The array, in front of a template that is nothing but a substitution. -/
def arrayWithHoles : Program :=
  .script .nil (.cons (.evaluate (.array elementsWithHoles))
    (.cons (.evaluate (.template .none
      (.cons (.substitution (.identifier (.usedName "a"))) .nil))) .nil))

theorem segments_arrayWithHoles :
    patternList elementsWithHoles Option.none elementsWithHoles.leaves
      (array elementsWithHoles).fragment ∈ arrayWithHoles.commaLists ∧
    (∀ leaf ∈ elementsWithHoles.leaves, leaf.Named .ofTables) ∧
    (∀ leaf ∈ elementsWithHoles.leaves, leaf.Framed) ∧ ∃ before inner after,
      arrayWithHoles.fragment.lexemes false =
        before ++ .verbatim "[" :: inner ++ .verbatim "]" :: after ∧
      segments inner = [[.verbatim "(", .name .used "a", .verbatim ",", .name .used "b",
        .verbatim ")"], [], [.verbatim "...", .name .used "c"], []] := by
  have member : patternList elementsWithHoles Option.none elementsWithHoles.leaves
      (array elementsWithHoles).fragment ∈ arrayWithHoles.commaLists := List.mem_singleton_self _
  have named : ∀ leaf ∈ elementsWithHoles.leaves, leaf.Named .ofTables := by
    show ∀ leaf ∈ [Leaf.name .used "a", .name .used "b", .name .used "c"], leaf.Named .ofTables
    have a : IdentifierClass.ofTables.isName "a".toList = true := by decide
    have b : IdentifierClass.ofTables.isName "b".toList = true := by decide
    have c : IdentifierClass.ofTables.isName "c".toList = true := by decide
    simp only [List.forall_mem_cons]
    exact ⟨a, b, c, by simp⟩
  have framed : ∀ leaf ∈ elementsWithHoles.leaves, leaf.Framed := by
    show ∀ leaf ∈ [Leaf.name .used "a", .name .used "b", .name .used "c"], leaf.Framed
    simp only [List.forall_mem_cons]
    exact ⟨trivial, trivial, trivial, by simp⟩
  obtain ⟨inner, -, ⟨before, after, whole⟩, -, -, found, -⟩ :=
    segments_of_mem_commaLists member named framed
  exact ⟨member, named, framed, before, inner, after, whole, found.trans (by decide)⟩

/-- The one element of the list is a template whose only part is the substitution `a,b`. -/
def bareSubstitution : Node (.list (.option .argument)) :=
  .cons (.some (.argument (.template .none (.cons (.substitution
    (.binary (.identifier (.usedName "a")) .sequence (.identifier (.usedName "b")))) .nil)))) .nil

def arrayOfBareSubstitution : Program :=
  .script .nil (.cons (.evaluate (.array bareSubstitution)) .nil)

/-- Without chunks no braces are written around the substitution, and its comma separates: one
element is read as two. -/
theorem not_segments_bareSubstitution :
    (∀ leaf ∈ arrayOfBareSubstitution.leaves, leaf.Named .ofTables) ∧
    patternList bareSubstitution Option.none bareSubstitution.leaves
      (array bareSubstitution).fragment ∈ arrayOfBareSubstitution.commaLists ∧
    ∃ inner, arrayOfBareSubstitution.fragment.lexemes false =
        .verbatim "[" :: inner ++ [.verbatim "]", .verbatim ";"] ∧
      bareSubstitution.entries.map Entry.lexemes = [inner] ∧ (segments inner).length = 2 := by
  refine ⟨?_, List.mem_singleton_self _, [.verbatim "\x60", .name .used "a", .verbatim ",",
    .name .used "b", .verbatim "\x60"], by decide, by decide, by decide⟩
  show ∀ leaf ∈ [Leaf.template _, .name .used "a", .name .used "b"], leaf.Named .ofTables
  have a : IdentifierClass.ofTables.isName "a".toList = true := by decide
  have b : IdentifierClass.ofTables.isName "b".toList = true := by decide
  simp only [List.forall_mem_cons]
  exact ⟨trivial, a, b, by simp⟩

end Node

end EcmaScribe
