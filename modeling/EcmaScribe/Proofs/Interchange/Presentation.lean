/-
# EcmaScribe.Proofs.Interchange.Presentation -- values that present the same node

A value presents a node in many ways.  `Json.Varied json other` says that `other` is
`json` with the members of any of its maps in another order, without some members that
stand for what their absence stands for (`Json.Droppable`), and with members of other
keys added, whatever their values.

`Node.decode_of_varied` says that a node is read back from every variation of its value.
The induction is on the shape of the node; a map is read in two steps:

* `Record.ofMembers_of_varied`: the fields are read wherever they stand.  What has been
  met so far determines the slots (`Slots.met`), so each member only adds its key.
* `Form.decode_of_tag`: the kind is the one that the tag names, wherever the tag stands
  and whichever set of kinds of a union holds it.
-/
import EcmaScribe.Proofs.Interchange.Shape
import Mathlib.Data.List.Nodup

namespace EcmaScribe

set_option autoImplicit false

variable {c : Category}

/-! ## Variations of a value -/

namespace Json

/-- A member whose absence says the same. -/
inductive Droppable : String → Json → Prop
  | absent (key : String) : Droppable key .null
  | synchronous : Droppable asyncKey (.bool false)

theorem Droppable.not_string {key value : String} : ¬ Droppable key (.string value) := nofun

mutual

/-- `other` is the value, presented in another way. -/
inductive Varied : Json → Json → Prop
  | null : Varied .null .null
  | bool (value : Bool) : Varied (.bool value) (.bool value)
  | number (value : JsonNumber) : Varied (.number value) (.number value)
  | string (value : String) : Varied (.string value) (.string value)
  | array {items others : List Json} : VariedItems items others →
      Varied (.array items) (.array others)
  | object {members kept added others : List (String × Json)} :
      VariedMembers members kept →
      (∀ member ∈ added, member.1 ≠ tagKey ∧ member.1 ∉ members.map Prod.fst) →
      (kept ++ added).Perm others → Varied (.object members) (.object others)

inductive VariedItems : List Json → List Json → Prop
  | nil : VariedItems [] []
  | cons {item other : Json} {items others : List Json} : Varied item other →
      VariedItems items others → VariedItems (item :: items) (other :: others)

/-- The members that are kept, each presented in another way. -/
inductive VariedMembers : List (String × Json) → List (String × Json) → Prop
  | nil : VariedMembers [] []
  | keep {key : String} {value other : Json} {members kept : List (String × Json)} :
      Varied value other → VariedMembers members kept →
      VariedMembers ((key, value) :: members) ((key, other) :: kept)
  | drop {key : String} {value : Json} {members kept : List (String × Json)} :
      Droppable key value → VariedMembers members kept →
      VariedMembers ((key, value) :: members) kept

end

mutual

theorem Varied.refl : (json : Json) → Varied json json
  | .null => .null
  | .bool value => .bool value
  | .number value => .number value
  | .string value => .string value
  | .array items => .array (VariedItems.refl items)
  | .object members =>
      .object (VariedMembers.refl members) (List.forall_mem_nil _)
        (List.Perm.of_eq (List.append_nil members))

theorem VariedItems.refl : (items : List Json) → VariedItems items items
  | [] => .nil
  | item :: items => .cons (Varied.refl item) (VariedItems.refl items)

theorem VariedMembers.refl : (members : List (String × Json)) → VariedMembers members members
  | [] => .nil
  | (_, value) :: members => .keep (Varied.refl value) (VariedMembers.refl members)

end

/-- Members are dropped and changed, never renamed or moved. -/
theorem VariedMembers.keys_sublist {members kept : List (String × Json)} :
    VariedMembers members kept → (kept.map Prod.fst).Sublist (members.map Prod.fst)
  | .nil => .slnil
  | .keep _ rest => rest.keys_sublist.cons_cons _
  | .drop _ rest => rest.keys_sublist.cons _

end Json

open Json (Varied VariedMembers memberCandidates memberCandidates_eq_map map_json_memberCandidates)

/-! ## Fields -/

section Words

open Vocabulary (ofWord word)

theorem BinaryOperator.ofWord_word (op : BinaryOperator) : ofWord (word op) = .ok op := by
  cases op <;> rfl

theorem UnaryOperator.ofWord_word (op : UnaryOperator) : ofWord (word op) = .ok op := by
  cases op <;> rfl

theorem UpdateOperator.ofWord_word (op : UpdateOperator) : ofWord (word op) = .ok op := by
  cases op <;> rfl

theorem CompoundOperator.ofWord_word (op : CompoundOperator) : ofWord (word op) = .ok op := by
  cases op <;> rfl

theorem DeclarationKind.ofWord_word (kind : DeclarationKind) :
    ofWord (word kind) = .ok kind := by
  cases kind <;> rfl

end Words

/-- A node that is read back from every variation of its value. -/
def Node.Recovered (node : Node c) : Prop :=
  c.isSettled → ∀ byIndex other, Varied node.toJson other →
    (Form.of c).decode byIndex other.parts = .ok node

namespace FieldSort

/-- A value of a field that is read back from every variation of what is written. -/
def Recovered (sort : FieldSort) (value : sort.Value) : Prop :=
  ∀ other, Varied (sort.encode value) other → sort.decode other.candidate = .ok value

theorem recovered {sort : FieldSort} (settled : sort.isSettled) {value : sort.Value}
    (node : sort.Holds (fun _ node => node.Recovered) value) : sort.Recovered value := by
  intro other h
  cases sort with
  | text | flag | optionalFlag | number => cases h; rfl
  | optionalText => cases value <;> cases h <;> rfl
  | binaryOperator => cases h; exact BinaryOperator.ofWord_word value
  | unaryOperator => cases h; exact UnaryOperator.ofWord_word value
  | updateOperator => cases h; exact UpdateOperator.ofWord_word value
  | compoundOperator => cases h; exact CompoundOperator.ofWord_word value
  | declarationKind => cases h; exact DeclarationKind.ofWord_word value
  | node c => exact (Json.node_candidate other c).trans (node settled true other h)

end FieldSort

/-- Only an optional child is read from null, and as an absent one. -/
theorem Form.absent_of_decode_null {form : Form c} {byIndex : Bool} {node : Node c}
    (h : form.decode byIndex (.scalar .null) = .ok node) :
    (FieldSort.node c).absent? = some node := by
  cases form with
  | record | tagged | each => cases h
  | optional form => cases h; rfl
  | union name layers =>
      induction layers with
      | nil => cases h
      | cons variants layers ih => exact ih h

/-- A member that may be dropped has the value that a missing field stands for. -/
theorem Field.absent_of_droppable {field : Field} (sound : field.IsSound)
    {value : field.sort.Value} (recovered : field.sort.Recovered value)
    (h : Json.Droppable field.name (field.sort.encode value)) :
    field.sort.absent? = some value := by
  obtain ⟨name, sort⟩ := field
  generalize hjson : sort.encode value = json at h
  cases h with
  | absent =>
      have null : sort.decode Json.null.candidate = .ok value := recovered _ (hjson ▸ .null)
      cases sort with
      | node c => exact Form.absent_of_decode_null null
      | optionalText => cases null; rfl
      | _ => cases null
  | synchronous =>
      obtain rfl : sort = .optionalFlag := sound.2.1 rfl
      cases hjson
      rfl

/-! ## Records from maps -/

namespace Slots

/-- The slots of a record of which the fields with the given keys have been met. -/
def met : (fields : List Field) → Record fields → List String → Slots fields
  | [], (), _ => ()
  | field :: fields, (value, record), keys =>
      (if field.name ∈ keys then some value else none, met fields record keys)

theorem met_nil : (fields : List Field) → (record : Record fields) →
    met fields record [] = empty fields
  | [], () => rfl
  | _ :: fields, (_, record) => congrArg (none, ·) (met_nil fields record)

theorem met_cons_of_not_mem {key : String} {keys : List String} :
    (fields : List Field) → (record : Record fields) → key ∉ fields.map Field.name →
    met fields record (key :: keys) = met fields record keys
  | [], (), _ => rfl
  | field :: fields, (value, record), h => by
      have hne : field.name ≠ key := fun heq => h (heq ▸ List.mem_cons_self)
      simp only [met, List.mem_cons, hne, false_or,
        met_cons_of_not_mem fields record fun hmem => h (List.mem_cons_of_mem _ hmem)]

/-- A member of a new key is read into the slot of its field. -/
theorem fill_met {key : String} {value : Candidate} {keys : List String} :
    (fields : List Field) → (record : Record fields) → (fields.map Field.name).Nodup →
    (key ∈ fields.map Field.name → key ∉ keys) →
    Record.Each (fun field content => key = field.name → field.sort.decode value = .ok content)
      fields record →
    fill key value fields (met fields record keys) = .ok (met fields record (key :: keys))
  | [], (), _, _, _ => rfl
  | field :: fields, (content, record), distinct, new, ⟨reads, rest⟩ => by
      obtain ⟨hother, distinct⟩ := List.nodup_cons.1 distinct
      by_cases hkey : key = field.name
      · subst hkey
        simp only [met, fill, if_true, new List.mem_cons_self, if_false, reads rfl,
          List.mem_cons_self, met_cons_of_not_mem fields record hother]
        rfl
      · have step := fill_met fields record distinct
          (fun hmem => new (List.mem_cons_of_mem _ hmem)) rest
        simp only [met, fill, if_neg hkey, step, List.mem_cons, Ne.symm hkey, false_or]
        rfl

/-- Members in any order are read into the slots of their fields, as long as no field is met
twice. -/
theorem fillAll_met {fields : List Field} {record : Record fields}
    (distinct : (fields.map Field.name).Nodup) :
    (members : List (String × Candidate)) → (keys : List String) →
    ((members.map Prod.fst ++ keys).filter (· ∈ fields.map Field.name)).Nodup →
    (∀ member ∈ members, Record.Each (fun field content =>
      member.1 = field.name → field.sort.decode member.2 = .ok content) fields record) →
    fillAll fields members (met fields record keys) =
      .ok (met fields record ((members.map Prod.fst).reverse ++ keys))
  | [], _, _, _ => rfl
  | (key, value) :: members, keys, once, reads => by
      have new : key ∈ fields.map Field.name → key ∉ keys := fun hname hkeys => by
        rw [List.map_cons, List.cons_append, List.filter_cons_of_pos (by simpa using hname)]
          at once
        exact (List.nodup_cons.1 once).1
          (List.mem_filter.2 ⟨List.mem_append_right _ hkeys, by simpa using hname⟩)
      have once' : ((members.map Prod.fst ++ key :: keys).filter
          (· ∈ fields.map Field.name)).Nodup :=
        ((List.perm_middle.filter _).nodup_iff).2 once
      obtain ⟨read, reads⟩ := List.forall_mem_cons.1 reads
      have step : fillAll fields ((key, value) :: members) (met fields record keys) =
          fillAll fields members (met fields record (key :: keys)) := by
        simp only [fillAll, fill_met fields record distinct new read]
        rfl
      rw [step, fillAll_met distinct members (key :: keys) once' reads]
      simp

theorem close_met {keys : List String} :
    (fields : List Field) → (record : Record fields) →
    Record.Each (fun field value => field.name ∈ keys ∨ field.sort.absent? = some value)
      fields record →
    close fields (met fields record keys) = .ok record
  | [], (), _ => rfl
  | field :: fields, (value, record), ⟨here, rest⟩ => by
      have hslot : ((if field.name ∈ keys then some value else none) <|> field.sort.absent?) =
          some value := by
        by_cases hmem : field.name ∈ keys
        · rw [if_pos hmem]
          rfl
        · rw [if_neg hmem, here.resolve_left hmem]
          rfl
      simp only [met, close, hslot, close_met fields record rest]
      rfl

end Slots

namespace Record

/-- Nothing is asked of a member that is no field. -/
theorem each_of_not_mem {name : String} {P : (field : Field) → field.sort.Value → Prop} :
    {fields : List Field} → {record : Record fields} → name ∉ fields.map Field.name →
    Each (fun field value => name = field.name → P field value) fields record
  | [], (), _ => trivial
  | _ :: _, (_, _), h =>
      ⟨fun heq => absurd (heq ▸ List.mem_cons_self) h,
        each_of_not_mem fun hmem => h (List.mem_cons_of_mem _ hmem)⟩

/-- A member that is kept is read as the value of its field. -/
theorem each_decode_of_varied :
    {fields : List Field} → {record : Record fields} → {kept : List (String × Json)} →
    (fields.map Field.name).Nodup →
    Each (fun field value => field.sort.Recovered value) fields record →
    VariedMembers (encode fields record) kept → ∀ member ∈ kept,
    Each (fun field value =>
      member.1 = field.name → field.sort.decode member.2.candidate = .ok value) fields record
  | [], (), _, _, _, _, _, _ => trivial
  | field :: fields, (value, record), _, distinct, ⟨here, rest⟩, h, member, hmem => by
      obtain ⟨hother, distinct⟩ := List.nodup_cons.1 distinct
      -- a member of a later field has another key than this one
      have later {kept : List (String × Json)} (h : VariedMembers (encode fields record) kept)
          (hmem : member ∈ kept) :
          Each (fun field value =>
            member.1 = field.name → field.sort.decode member.2.candidate = .ok value)
            (field :: fields) (value, record) := by
        refine ⟨fun heq => absurd ?_ hother, each_decode_of_varied distinct rest h member hmem⟩
        rw [← heq, ← map_fst_encode fields record]
        exact h.keys_sublist.subset (List.mem_map_of_mem hmem)
      cases h with
      | drop _ h => exact later h hmem
      | keep hvalue h =>
          rcases List.mem_cons.1 hmem with rfl | hmem
          · exact ⟨fun _ => here _ hvalue, each_of_not_mem hother⟩
          · exact later h hmem

/-- A field is met or its absence stands for its value. -/
theorem each_mem_or_absent :
    {fields : List Field} → {record : Record fields} → {kept : List (String × Json)} →
    (∀ field ∈ fields, field.IsSound) →
    Each (fun field value => field.sort.Recovered value) fields record →
    VariedMembers (encode fields record) kept →
    Each (fun field value =>
      field.name ∈ kept.map Prod.fst ∨ field.sort.absent? = some value) fields record
  | [], (), _, _, _, _ => trivial
  | field :: fields, (value, record), _, sound, ⟨here, rest⟩, h => by
      obtain ⟨hsound, sound⟩ := List.forall_mem_cons.1 sound
      cases h with
      | drop hdrop h =>
          exact ⟨.inr (field.absent_of_droppable hsound here hdrop),
            each_mem_or_absent sound rest h⟩
      | keep _ h =>
          exact ⟨.inl List.mem_cons_self, (each_mem_or_absent sound rest h).imp
            fun _ _ _ => Or.imp_left (List.mem_cons_of_mem _)⟩

/-- A record is read from what is kept of its fields, in any order among other members. -/
theorem ofMembers_of_varied {fields : List Field} {record : Record fields}
    {kept foreign others : List (String × Json)} (distinct : (fields.map Field.name).Nodup)
    (sound : ∀ field ∈ fields, field.IsSound)
    (recovered : Each (fun field value => field.sort.Recovered value) fields record)
    (h : VariedMembers (encode fields record) kept)
    (hforeign : ∀ member ∈ foreign, member.1 ∉ fields.map Field.name)
    (perm : (kept ++ foreign).Perm others) :
    ofMembers fields (memberCandidates others) = .ok record := by
  have hkeys : (memberCandidates others).map Prod.fst = others.map Prod.fst := by
    rw [memberCandidates_eq_map, List.map_map]
    rfl
  have once : (((memberCandidates others).map Prod.fst ++ []).filter
      (· ∈ fields.map Field.name)).Nodup := by
    have hnone : (foreign.map Prod.fst).filter (· ∈ fields.map Field.name) = [] := by
      simpa [List.filter_eq_nil_iff] using hforeign
    rw [hkeys, List.append_nil, ← ((perm.map Prod.fst).filter _).nodup_iff, List.map_append,
      List.filter_append, hnone, List.append_nil]
    exact (h.keys_sublist.nodup (by rwa [map_fst_encode])).filter _
  have reads : ∀ member ∈ memberCandidates others, Each (fun field value =>
      member.1 = field.name → field.sort.decode member.2 = .ok value) fields record := by
    rw [memberCandidates_eq_map, List.forall_mem_map]
    intro member hmem
    rcases List.mem_append.1 (perm.mem_iff.2 hmem) with hkept | hadded
    · exact each_decode_of_varied distinct recovered h member hkept
    · exact each_of_not_mem (hforeign member hadded)
  have closes := (each_mem_or_absent sound recovered h).imp fun field _ value =>
    Or.imp_left fun hmem : field.name ∈ kept.map Prod.fst =>
      (show field.name ∈ (others.map Prod.fst).reverse ++ [] by
        rw [List.append_nil, List.mem_reverse, ← (perm.map Prod.fst).mem_iff, List.map_append]
        exact List.mem_append_left _ hmem)
  have filled := Slots.fillAll_met distinct (memberCandidates others) [] once reads
  rw [Slots.met_nil, hkeys] at filled
  simp only [ofMembers, filled]
  exact Slots.close_met fields record closes

end Record

/-! ## Kinds by their tag -/

section Tag

variable {variants : List (Variant c)} {byIndex : Bool} {name : String}
  {members : List (String × Json)}

/-- The members named like the tag are one, and it holds the given name. -/
def TaggedAs (name : String) (members : List (String × Json)) : Prop :=
  members.filter (fun member => member.1 = tagKey) = [(tagKey, .string name)]

theorem chooseVariant_of_untagged (chosen : Option (Variant c)) :
    (members : List (String × Json)) →
    members.filter (fun member => member.1 = tagKey) = [] →
    chooseVariant byIndex variants chosen members = .ok chosen
  | [], _ => rfl
  | (key, value) :: members, h => by
      have hkey : key ≠ tagKey := by
        rintro rfl
        simp at h
      unfold chooseVariant
      rw [if_neg hkey]
      exact chooseVariant_of_untagged chosen members (by simpa [hkey] using h)

theorem chooseVariant_of_tag :
    (members : List (String × Json)) → TaggedAs name members →
    chooseVariant byIndex variants none members =
      (variantOfTag byIndex variants (.string name)).map some
  | [], h => nomatch h
  | (key, value) :: members, h => by
      by_cases hkey : key = tagKey
      · subst hkey
        obtain ⟨⟨-, rfl⟩, hrest⟩ :
            (tagKey = tagKey ∧ value = .string name) ∧
              members.filter (fun member => member.1 = tagKey) = [] := by
          simpa [TaggedAs, List.filter_cons] using h
        rw [chooseVariant, if_pos rfl]
        cases variantOfTag byIndex variants (.string name) with
        | error fault => rfl
        | ok variant => exact chooseVariant_of_untagged (some variant) members hrest
      · rw [chooseVariant, if_neg hkey]
        exact chooseVariant_of_tag members (by simpa [TaggedAs, List.filter_cons, hkey] using h)

theorem decodeTagged_of_tag (label : String) (tag : TaggedAs name members) :
    decodeTagged byIndex label variants (.map (memberCandidates members)) =
      (variantOfTag byIndex variants (.string name)).bind fun variant =>
        variant.decode (.map (memberCandidates members)) := by
  simp only [decodeTagged, map_json_memberCandidates, chooseVariant_of_tag members tag]
  cases variantOfTag byIndex variants (.string name) <;> rfl

variable {node : Node c} {variant : Variant c}

theorem decodeTagged_of_mem (label : String) (distinct : (variants.map Variant.name).Nodup)
    (offered : variant ∈ variants) (tag : TaggedAs variant.name members)
    (h : variant.decode (.map (memberCandidates members)) = .ok node) :
    decodeTagged byIndex label variants (.map (memberCandidates members)) = .ok node := by
  have found : variants.find? (fun other => other.name = variant.name) = some variant := by
    obtain ⟨other, hother⟩ := Option.isSome_iff_exists.1
      (List.find?_isSome (p := fun other => other.name = variant.name).2
        ⟨variant, offered, by simp⟩)
    have hname : other.name = variant.name := by simpa using List.find?_some hother
    rw [hother, List.inj_on_of_nodup_map distinct (List.mem_of_find?_eq_some hother) offered
      hname]
  rw [decodeTagged_of_tag label tag]
  simp only [variantOfTag, found]
  exact h

theorem decodeTagged_of_not_mem (label : String) (tag : TaggedAs name members)
    (h : name ∉ variants.map Variant.name) :
    ∃ fault, decodeTagged byIndex label variants (.map (memberCandidates members)) =
      .error fault := by
  have found : variants.find? (fun other => other.name = name) = none := by
    simpa [List.find?_eq_none] using h
  rw [decodeTagged_of_tag label tag]
  simp only [variantOfTag, found]
  exact ⟨_, rfl⟩

/-- A union finds the kind in whichever of its layers has it. -/
theorem decodeUnion_of_mem (label : String) :
    (layers : List (List (Variant c))) → (layers.flatten.map Variant.name).Nodup →
    variant ∈ layers.flatten → TaggedAs variant.name members →
    variant.decode (.map (memberCandidates members)) = .ok node →
    decodeUnion label layers (.map (memberCandidates members)) = .ok node
  | [], _, offered, _, _ => nomatch offered
  | variants :: layers, distinct, offered, tag, h => by
      rw [List.flatten_cons, List.map_append] at distinct
      obtain ⟨hhere, hlater, hdisjoint⟩ := List.nodup_append.1 distinct
      rw [decodeUnion]
      rcases List.mem_append.1 offered with hmem | hmem
      · rw [decodeTagged_of_mem label hhere hmem tag h]
      · have hname : variant.name ∉ variants.map Variant.name := fun hname =>
          hdisjoint _ hname _ (List.mem_map_of_mem hmem) rfl
        obtain ⟨fault, hfault⟩ : ∃ fault, decodeTagged true label variants _ = .error fault :=
          decodeTagged_of_not_mem label tag hname
        rw [hfault]
        exact decodeUnion_of_mem label layers hlater hmem tag h

/-- A map with one tag is read as the kind of that name, wherever the tag stands. -/
theorem Form.decode_of_tag {form : Form c} (sound : form.IsSound)
    (offered : variant ∈ form.layers.flatten) (tag : TaggedAs variant.name members)
    (h : variant.decode (.map (memberCandidates members)) = .ok node) :
    form.decode byIndex (.map (memberCandidates members)) = .ok node := by
  cases form with
  | record | each | optional => cases offered
  | tagged label variants =>
      have hflatten : variants ++ [] = variants := List.append_nil variants
      exact decodeTagged_of_mem label (hflatten ▸ sound.1) (hflatten ▸ offered) tag h
  | union label layers => exact decodeUnion_of_mem label layers sound.1 offered tag h

end Tag

/-! ## Nodes -/

section Kinds

variable {variant : Variant c} {record : Record variant.fields} {byIndex : Bool}
  {kept added foreign others : List (String × Json)}

theorem Variant.decode_of_varied (sound : variant.IsSound)
    (recovered : Record.Each (fun field value => field.sort.Recovered value)
      variant.fields record)
    (h : VariedMembers (Record.encode variant.fields record) kept)
    (hforeign : ∀ member ∈ foreign, member.1 ∉ variant.fields.map Field.name)
    (perm : (kept ++ foreign).Perm others) :
    variant.decode (.map (memberCandidates others)) = .ok (variant.build record) := by
  simp only [Variant.decode,
    Record.ofMembers_of_varied sound.1 sound.2 recovered h hforeign perm]
  rfl

/-- The tag of a kind stays the only one in every variation. -/
theorem taggedAs_of_varied (sound : variant.IsSound)
    (h : VariedMembers (Record.encode variant.fields record) kept)
    (hadded : ∀ member ∈ added, member.1 ≠ tagKey)
    (perm : ((tagKey, Json.string variant.name) :: kept ++ added).Perm others) :
    TaggedAs variant.name others := by
  have hkept : ∀ member ∈ kept, member.1 ≠ tagKey := fun member hmem heq => by
    have hname := h.keys_sublist.subset (List.mem_map_of_mem hmem)
    rw [Record.map_fst_encode] at hname
    obtain ⟨field, hfield, hfieldname⟩ := List.mem_map.1 hname
    exact (sound.2 field hfield).1 (hfieldname.trans heq)
  have hnone : (kept ++ added).filter (fun member => member.1 = tagKey) = [] :=
    List.filter_eq_nil_iff.2 fun member hmem => by
      simpa using (List.mem_append.1 hmem).elim (hkept member) (hadded member)
  refine List.perm_singleton.1 ((perm.symm.filter _).trans (List.Perm.of_eq ?_))
  rw [List.cons_append, List.filter_cons_of_pos (by simp), hnone]

/-- The members added to the fields of a record are no fields of it. -/
theorem not_mem_fields_of_added {members : List (String × Json)}
    (hsub : Record.encode variant.fields record ⊆ members)
    (hadded : ∀ member ∈ added, member.1 ≠ tagKey ∧ member.1 ∉ members.map Prod.fst) :
    ∀ member ∈ added, member.1 ∉ variant.fields.map Field.name := fun member hmem hname => by
  rw [← Record.map_fst_encode variant.fields record] at hname
  exact (hadded member hmem).2 (List.map_subset _ hsub hname)

variable {form : Form c} {other : Json}

theorem Form.decode_kind_of_varied (sound : form.IsSound) (hvariant : variant.IsSound)
    (offered : variant ∈ form.layers.flatten)
    (recovered : Record.Each (fun field value => field.sort.Recovered value)
      variant.fields record)
    (h : Varied (.kind variant.name (Record.encode variant.fields record)) other) :
    form.decode byIndex other.parts = .ok (variant.build record) := by
  cases h with
  | object hkept hadded perm =>
      cases hkept with
      | drop hdrop => exact absurd hdrop Json.Droppable.not_string
      | keep htag hkept =>
          cases htag
          refine decode_of_tag sound offered
            (taggedAs_of_varied hvariant hkept (fun member hmem => (hadded member hmem).1) perm)
            (variant.decode_of_varied hvariant recovered hkept ?_
              (List.perm_middle.trans perm))
          refine List.forall_mem_cons.2 ⟨fun hname => ?_,
            not_mem_fields_of_added (List.subset_cons_self _ _) hadded⟩
          obtain ⟨field, hfield, hfieldname⟩ := List.mem_map.1 hname
          exact (hvariant.2 field hfield).1 hfieldname

/-- A node of any kind is read back from every variation, if the values of its fields are. -/
theorem Form.decode_of_varied (sound : form.IsSound) (offered : variant ∈ form.variants)
    (recovered : Record.Each (fun field value => field.sort.Recovered value)
      variant.fields record)
    (h : Varied (form.wrap variant.name (Record.encode variant.fields record)) other) :
    form.decode byIndex other.parts = .ok (variant.build record) := by
  have hvariant := sound.2 variant offered
  cases form with
  | each | optional => nomatch offered
  | tagged | union => exact decode_kind_of_varied sound hvariant offered recovered h
  | record =>
      cases List.mem_singleton.1 offered
      cases h with
      | object hkept hadded perm =>
          exact variant.decode_of_varied hvariant recovered hkept
            (not_mem_fields_of_added (List.Subset.refl _) hadded) perm

end Kinds

namespace Node

/-- A node is read back from every variation of its value. -/
theorem recovered (node : Node c) : node.Recovered := by
  induction node.shaped with
  | nil =>
      intro _ byIndex other h
      cases h with
      | array h => cases h; rfl
  | @cons _ head tail _ _ hhead htail =>
      intro settled byIndex other h
      obtain ⟨items, hitems⟩ := exists_items tail
      rw [toJson_cons head hitems] at h
      cases h with
      | array h =>
        cases h with
        | @cons _ first _ rest hfirst hrest =>
          have hhead := hhead settled true first hfirst
          have htail : decodeEach _ (Json.candidates rest) = .ok tail :=
            htail settled byIndex (.array rest) (hitems ▸ .array hrest)
          show decodeEach _ (first.candidate :: Json.candidates rest) = _
          simp only [decodeEach, Json.node_candidate, hhead, htail]
          rfl
  | none =>
      intro _ byIndex other h
      cases h
      rfl
  | @some c node _ ih =>
      intro settled byIndex other h
      obtain ⟨hc, settled⟩ : c.isOption = false ∧ c.isSettled := by
        simpa [Category.isSettled] using settled
      have read := ih settled byIndex other h
      -- null is left to the absent child, since it is no node of the category itself
      have notNull : other.parts ≠ .scalar .null := fun hnull => by
        have absent := Form.absent_of_decode_null (hnull ▸ read)
        cases c with
        | option => cases hc
        | _ => cases absent
      show (Form.optional (Form.of c)).decode byIndex other.parts = _
      rw [Form.decode_optional notNull, read]
      rfl
  | @kind c variant offered record parts ih =>
      intro settled byIndex other h
      have sound := Form.isSound_of c
      rw [Variant.toJson_build offered] at h
      refine Form.decode_of_varied sound offered ?_ h
      refine ((Record.forall_mem_nodes _ _).1 ih).imp fun field hfield value => ?_
      exact FieldSort.recovered ((sound.2 variant offered).2 field hfield).2.2

/-- **Presentation does not matter.**  A program is read back from every variation of its
value. -/
theorem toNode_of_varied (program : Program) {other : Json}
    (h : Varied program.toJson other) : other.toNode .program = .ok program :=
  program.recovered rfl false other h

end Node

end EcmaScribe
