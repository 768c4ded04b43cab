/-
# EcmaScribe.Proofs.ReferenceGroups -- references grouped by name and summed up

`Reference.byName` reads a list of references from the left and keeps one group for each
name.  What a step does is told by `lookup_insertGroup`: the group of the reference's own
name grows by it at the end, every other group stays.  So the group of a name is always the
part of the list that has been read with that name.

`Reference.accessOf?` sums the accesses of one name up without grouping.  `join` is the
supremum of the order in which an access lies below those that do whatever it does, so the
sum is the least access above all of a group, in whatever order they are met.
-/
import EcmaScribe.Tree.Reference
import Mathlib.Order.Bounds.Basic
import Mathlib.Data.List.Induction
import Mathlib.Data.List.Nodup

namespace EcmaScribe

set_option autoImplicit false

/-! ## The lattice of accesses -/

namespace Access

instance : Max Access := ⟨join⟩

theorem join_comm (a b : Access) : a ⊔ b = b ⊔ a := by cases a <;> cases b <;> rfl

theorem join_assoc (a b c : Access) : a ⊔ b ⊔ c = a ⊔ (b ⊔ c) := by
  cases a <;> cases b <;> cases c <;> rfl

theorem join_self (a : Access) : a ⊔ a = a := by cases a <;> rfl

/-- An access lies below another if joining it changes nothing. -/
instance : SemilatticeSup Access := SemilatticeSup.mk' join_comm join_assoc join_self

/-- The order compares what accesses do. -/
theorem le_iff {a b : Access} : a ≤ b ↔
    (a.isRead = true → b.isRead = true) ∧ (a.isWrite = true → b.isWrite = true) := by
  rw [← sup_eq_right]
  cases a <;> cases b <;> decide

/-- Widening is joining. -/
theorem join_read (a : Access) : a ⊔ read = a.withReading := by cases a <;> rfl

theorem join_write (a : Access) : a ⊔ write = a.withWriting := by cases a <;> rfl

/-- A sum reads if and only if one of its summands does: otherwise they all lie below `write`,
and so does the sum. -/
theorem isRead_iff_of_isLUB {accesses : Set Access} {a : Access} (sum : IsLUB accesses a) :
    a.isRead = true ↔ ∃ b ∈ accesses, b.isRead = true := by
  constructor
  · intro reads
    by_contra! none_reads
    have below : a ≤ write := sum.2 fun b member =>
      le_iff.2 ⟨fun reads => absurd reads (none_reads b member), fun _ => rfl⟩
    cases (le_iff.1 below).1 reads
  · rintro ⟨b, member, reads⟩
    exact (le_iff.1 (sum.1 member)).1 reads

theorem isWrite_iff_of_isLUB {accesses : Set Access} {a : Access} (sum : IsLUB accesses a) :
    a.isWrite = true ↔ ∃ b ∈ accesses, b.isWrite = true := by
  constructor
  · intro writes
    by_contra! none_writes
    have below : a ≤ read := sum.2 fun b member =>
      le_iff.2 ⟨fun _ => rfl, fun writes => absurd writes (none_writes b member)⟩
    cases (le_iff.1 below).2 writes
  · rintro ⟨b, member, writes⟩
    exact (le_iff.1 (sum.1 member)).2 writes

/-- Summing up from the left gives the least access above all summands. -/
theorem isLUB_foldl_join (first : Access) (rest : List Access) :
    IsLUB {a | a ∈ first :: rest} (rest.foldl join first) := by
  induction rest generalizing first with
  | nil => simp
  | cons second rest ih =>
      constructor
      · intro a member
        have bound := (ih (first ⊔ second)).1
        rcases List.mem_cons.1 member with rfl | member
        · exact le_sup_left.trans (bound (List.mem_cons_self ..))
        rcases List.mem_cons.1 member with rfl | member
        · exact le_sup_right.trans (bound (List.mem_cons_self ..))
        · exact bound (List.mem_cons_of_mem _ member)
      · intro b bound
        refine (ih (first ⊔ second)).2 fun a member => ?_
        rcases List.mem_cons.1 member with rfl | member
        · exact sup_le (bound (by simp)) (bound (by simp))
        · exact bound (by simp [member])

end Access

namespace Reference

/-! ## Groups -/

/-- What one step does to the group of each name. -/
theorem lookup_insertGroup (r : Reference) (groups : List (String × List Reference))
    (name : String) : (insertGroup r groups).lookup name =
      if r.name = name then some ((groups.lookup name).getD [] ++ [r])
      else groups.lookup name := by
  have lookup_cons (head : String × List Reference) (rest : List (String × List Reference)) :
      (head :: rest).lookup name = if name = head.1 then some head.2 else rest.lookup name := by
    rw [List.lookup_eq_findSome?, List.lookup_eq_findSome?, List.findSome?_cons]
    by_cases same : name = head.1 <;> simp [same]
  induction groups with
  | nil => simp [insertGroup, lookup_cons, eq_comm]
  | cons head rest ih =>
      by_cases own : r.name = head.1
      · rw [insertGroup, if_pos own, lookup_cons, lookup_cons, own]
        by_cases same : name = head.1
        · simp [same]
        · simp [same, Ne.symm same]
      · rw [insertGroup, if_neg own, lookup_cons, lookup_cons, ih]
        by_cases same : name = head.1
        · simp [same, own]
        · simp [same]

theorem map_fst_insertGroup (r : Reference) (groups : List (String × List Reference)) :
    (insertGroup r groups).map Prod.fst = groups.map Prod.fst ∧ r.name ∈ groups.map Prod.fst ∨
    (insertGroup r groups).map Prod.fst = groups.map Prod.fst ++ [r.name] ∧
      r.name ∉ groups.map Prod.fst := by
  induction groups with
  | nil => exact .inr (by simp [insertGroup])
  | cons head rest ih =>
      by_cases own : r.name = head.1
      · exact .inl (by simp [insertGroup, own])
      · simpa [insertGroup, own] using ih

theorem perm_insertGroup (r : Reference) (groups : List (String × List Reference)) :
    ((insertGroup r groups).flatMap Prod.snd).Perm (groups.flatMap Prod.snd ++ [r]) := by
  induction groups with
  | nil => simp [insertGroup]
  | cons head rest ih =>
      by_cases own : r.name = head.1
      · simp only [insertGroup, own, if_true, List.flatMap_cons, List.append_assoc]
        exact List.perm_append_comm.append_left head.2
      · simp only [insertGroup, own, if_false, List.flatMap_cons, List.append_assoc]
        exact ih.append_left head.2

theorem byName_concat (references : List Reference) (r : Reference) :
    byName (references ++ [r]) = insertGroup r (byName references) := by
  simp [byName]

/-- No name has two groups. -/
theorem nodup_byName (references : List Reference) :
    ((byName references).map Prod.fst).Nodup := by
  induction references using List.reverseRecOn with
  | nil => simp [byName]
  | append_singleton references r ih =>
      rw [byName_concat]
      rcases map_fst_insertGroup r (byName references) with ⟨same, -⟩ | ⟨grown, new⟩
      · rwa [same]
      · rw [grown]
        exact List.nodup_append_comm.1 (List.nodup_cons.2 ⟨new, ih⟩)

/-- The groups hold every reference as often as the list does. -/
theorem perm_byName (references : List Reference) :
    ((byName references).flatMap Prod.snd).Perm references := by
  induction references using List.reverseRecOn with
  | nil => simp [byName]
  | append_singleton references r ih =>
      rw [byName_concat]
      exact (perm_insertGroup r _).trans (ih.append_right [r])

/-- The references to a name. -/
def named (references : List Reference) (name : String) : List Reference :=
  references.filter (·.name = name)

theorem mem_named {references : List Reference} {name : String} {r : Reference} :
    r ∈ named references name ↔ r ∈ references ∧ r.name = name := by
  simp [named]

theorem named_eq_nil_iff {references : List Reference} {name : String} :
    named references name = [] ↔ ∀ r ∈ references, r.name ≠ name := by
  simp [named]

theorem named_concat (references : List Reference) (r : Reference) (name : String) :
    named (references ++ [r]) name =
      if r.name = name then named references name ++ [r] else named references name := by
  by_cases own : r.name = name <;> simp [named, own]

/-- The group of a name is the part of the list that has this name. -/
theorem lookup_byName (references : List Reference) (name : String) :
    (byName references).lookup name =
      if named references name = [] then none else some (named references name) := by
  induction references using List.reverseRecOn with
  | nil => simp [byName, named]
  | append_singleton references r ih =>
      rw [byName_concat, lookup_insertGroup, ih, named_concat]
      by_cases own : r.name = name
      · by_cases empty : named references name = [] <;> simp [own, empty]
      · simp [own]

theorem mem_byName_iff {references : List Reference} {name : String} {group : List Reference} :
    (name, group) ∈ byName references ↔ group = named references name ∧ group ≠ [] := by
  have found : (name, group) ∈ byName references ↔
      (byName references).lookup name = some group := by
    rw [List.lookup_eq_some_iff]
    constructor
    · intro member
      obtain ⟨before, after, split⟩ := List.append_of_mem member
      refine ⟨before, after, split, fun other earlier => ?_⟩
      have single := nodup_byName references
      rw [split, List.map_append, List.map_cons, List.nodup_append] at single
      have apart := single.2.2 other.1 (List.mem_map_of_mem earlier) name (by simp)
      exact bne_iff_ne.2 apart.symm
    · rintro ⟨before, after, split, -⟩
      simp [split]
  rw [found, lookup_byName]
  split
  · rename_i unused
    simp [unused]
  · rename_i used
    constructor
    · rintro ⟨⟩
      exact ⟨rfl, used⟩
    · rintro ⟨rfl, -⟩
      rfl

/-! ## Sums -/

/-- The accesses made to a name. -/
def accessesTo (references : List Reference) (name : String) : Set Access :=
  {a | ∃ r ∈ named references name, r.access = a}

theorem accessOf?_eq_none_iff {references : List Reference} {name : String} :
    accessOf? references name = none ↔ named references name = [] := by
  rw [accessOf?, ← List.map_eq_nil_iff (f := fun r : Reference => r.access), named]
  split <;> simp_all

/-- The sum over a name is the supremum of the accesses to it. -/
theorem accessOf?_eq_some_iff {references : List Reference} {name : String} {a : Access} :
    accessOf? references name = some a ↔ IsLUB (accessesTo references name) a ∧
      named references name ≠ [] := by
  have accesses : accessesTo references name =
      {a | a ∈ (named references name).map (fun r => r.access)} := by
    ext b
    simp [accessesTo]
  rw [accesses, Ne, ← List.map_eq_nil_iff (f := fun r : Reference => r.access), accessOf?, ← named]
  split
  · simp_all
  · rename_i first rest summands
    have sum := Access.isLUB_foldl_join first rest
    rw [summands, Option.some_inj]
    exact ⟨by rintro rfl; exact ⟨sum, by simp⟩, fun other => sum.unique other.1⟩

/-- **Grouping keeps the references and their order, summing up is joining.**  Each name that
occurs has one group, its references in their order.  A name has a sum if it occurs; the sum reads
or writes if one of the group does, it is the least access above those of the group, and it does
not depend on the order of the references. -/
theorem byName_accessOf? (references : List Reference) :
    ((byName references).map Prod.fst).Nodup ∧
    (∀ name, name ∈ (byName references).map Prod.fst ↔ ∃ r ∈ references, r.name = name) ∧
    (∀ name group, (name, group) ∈ byName references →
      group = references.filter (·.name = name)) ∧
    ((byName references).flatMap Prod.snd).Perm references ∧
    (∀ name, accessOf? references name = none ↔ ∀ r ∈ references, r.name ≠ name) ∧
    (∀ name group, (name, group) ∈ byName references → ∃ sum,
      accessOf? references name = some sum ∧
      (sum.isRead = true ↔ ∃ r ∈ group, r.access.isRead = true) ∧
      (sum.isWrite = true ↔ ∃ r ∈ group, r.access.isWrite = true) ∧
      IsLUB {a | ∃ r ∈ group, r.access = a} sum) ∧
    ∀ other, other.Perm references → ∀ name, accessOf? other name = accessOf? references name := by
  refine ⟨nodup_byName references, fun name => ?_, fun name group member =>
    (mem_byName_iff.1 member).1, perm_byName references, fun name =>
    accessOf?_eq_none_iff.trans named_eq_nil_iff, fun name group member => ?_,
    fun other perm name => ?_⟩
  · calc name ∈ (byName references).map Prod.fst
      _ ↔ ∃ group, group = named references name ∧ group ≠ [] := by simp [mem_byName_iff]
      _ ↔ ∃ r ∈ references, r.name = name := by
        rw [exists_eq_left, ne_eq, named_eq_nil_iff]
        simp
  · obtain ⟨rfl, used⟩ := mem_byName_iff.1 member
    obtain ⟨sum, found⟩ := Option.ne_none_iff_exists'.1 (accessOf?_eq_none_iff.not.2 used)
    have least := (accessOf?_eq_some_iff.1 found).1
    refine ⟨sum, found, ?_, ?_, least⟩
    · rw [Access.isRead_iff_of_isLUB least]
      simp [accessesTo]
    · rw [Access.isWrite_iff_of_isLUB least]
      simp [accessesTo]
  · have same_accesses : accessesTo other name = accessesTo references name := by
      ext a
      simp [accessesTo, mem_named, perm.mem_iff]
    have same_use : named other name = [] ↔ named references name = [] := by
      simp only [named_eq_nil_iff, perm.mem_iff]
    ext a
    rw [accessOf?_eq_some_iff, accessOf?_eq_some_iff, same_accesses, ne_eq, same_use]

/-- A name that is declared and used later is written and read. -/
theorem accessOf?_declared_used :
    ∃ sum, accessOf? [{ usage := .binding, name := "x" }, { usage := .expression, name := "y" },
        { usage := .expression, name := "x" }] "x" = some sum ∧
      sum.isRead = true ∧ sum.isWrite = true := by
  obtain ⟨-, -, -, -, -, sums, -⟩ := byName_accessOf? [{ usage := .binding, name := "x" },
    { usage := .expression, name := "y" }, { usage := .expression, name := "x" }]
  obtain ⟨sum, found, reads, writes, -⟩ := sums "x" [{ usage := .binding, name := "x" },
    { usage := .expression, name := "x" }] (by decide)
  exact ⟨sum, found, reads.2 (by decide), writes.2 (by decide)⟩

end Reference

end EcmaScribe
