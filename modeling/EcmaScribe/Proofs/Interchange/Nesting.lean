/-
# EcmaScribe.Proofs.Interchange.Nesting -- a node nests no deeper than its value

A value can spell out less than a node has, as a sequence in place of a map or without
some fields, but never with fewer containers inside one another:
`Json.depth_toJson_le` says that the value written for a node nests at most as deep as
any value that the node is read from.  What was short enough to be read is therefore
short enough once it is written again.

The induction is on the value that is read.  `Candidate.Within` is what it says of one
value for all categories at once, and each decoder hands it on from the parts to the node.
-/
import EcmaScribe.Proofs.Interchange.Shape
import EcmaScribe.Proofs.Json.Scalar

namespace EcmaScribe

set_option autoImplicit false

variable {c : Category}

/-! ## Bounds on what is read -/

/-- Each node that the value is read as nests at most `limit` deep. -/
def Candidate.Within (limit : Nat) (value : Candidate) : Prop :=
  ∀ (c : Category) (node : Node c), value.node c = .ok node → node.toJson.depth ≤ limit

theorem Candidate.Within.mono {value : Candidate} {limit bound : Nat}
    (h : value.Within limit) (hle : limit ≤ bound) : value.Within bound :=
  fun c node hnode => Nat.le_trans (h c node hnode) hle

/-- The parts of a container stay below the limit of the container. -/
def Parts.Within (limit : Nat) : Parts → Prop
  | .scalar _ => True
  | .sequence items => ∃ inner < limit, ∀ item ∈ items, item.Within inner
  | .map members => ∃ inner < limit, ∀ member ∈ members, member.2.Within inner

namespace FieldSort

variable {sort : FieldSort} {limit : Nat}

theorem depth_encode_le {value : Candidate} {content : sort.Value} (within : value.Within limit)
    (h : sort.decode value = .ok content) : (sort.encode content).depth ≤ limit := by
  cases sort with
  | node c => exact within c content h
  | optionalText => cases content <;> exact Nat.zero_le _
  | _ => exact Nat.zero_le _

theorem depth_encode_absent {content : sort.Value} (h : sort.absent? = some content) :
    (sort.encode content).depth = 0 := by
  cases sort with
  | node c =>
      cases c with
      | option => cases h; rfl
      | _ => cases h
  | optionalText => cases h; rfl
  | optionalFlag => rfl
  | _ => cases h

theorem depth_encode_omitted {content : sort.Value} (h : sort.omitted? = some content) :
    (sort.encode content).depth = 0 := by
  cases sort with
  | optionalFlag => rfl
  | _ => cases h

end FieldSort

/-! ## Records -/

namespace Slots

variable {limit : Nat}

/-- The values that have been met nest at most `limit` deep. -/
def Within (limit : Nat) : (fields : List Field) → Slots fields → Prop
  | [], () => True
  | field :: fields, (slot, slots) =>
      (∀ value ∈ slot, (field.sort.encode value).depth ≤ limit) ∧ Within limit fields slots

theorem within_empty : (fields : List Field) → Within limit fields (empty fields)
  | [] => trivial
  | _ :: fields => ⟨nofun, within_empty fields⟩

theorem within_fill {key : String} {value : Candidate} (hvalue : value.Within limit) :
    (fields : List Field) → {slots filled : Slots fields} → Within limit fields slots →
    fill key value fields slots = .ok filled → Within limit fields filled
  | [], (), (), _, _ => trivial
  | field :: fields, (slot, slots), _, ⟨hslot, hslots⟩, h => by
      by_cases hkey : key = field.name
      · cases slot with
        | some =>
            rw [fill, if_pos hkey] at h
            cases h
        | none =>
            rw [fill, if_pos hkey] at h
            obtain ⟨content, hcontent, rfl⟩ := exists_of_map_eq_ok h
            refine ⟨fun _ hmem => ?_, hslots⟩
            cases hmem
            exact FieldSort.depth_encode_le hvalue hcontent
      · unfold fill at h
        rw [if_neg hkey] at h
        obtain ⟨rest, hrest, rfl⟩ := exists_of_map_eq_ok h
        exact ⟨hslot, within_fill hvalue fields hslots hrest⟩

theorem within_fillAll {fields : List Field} :
    (members : List (String × Candidate)) → (∀ member ∈ members, member.2.Within limit) →
    {slots filled : Slots fields} → Within limit fields slots →
    fillAll fields members slots = .ok filled → Within limit fields filled
  | [], _, _, _, hslots, h => by
      cases h
      exact hslots
  | (key, value) :: members, within, _, _, hslots, h => by
      obtain ⟨hvalue, within⟩ := List.forall_mem_cons.1 within
      obtain ⟨next, hnext, h⟩ := exists_of_bind_eq_ok h
      exact within_fillAll members within (within_fill hvalue fields hslots hnext) h

theorem depth_close_le :
    (fields : List Field) → {slots : Slots fields} → {record : Record fields} →
    Within limit fields slots → close fields slots = .ok record →
    Json.depthMembers (Record.encode fields record) ≤ limit
  | [], (), (), _, _ => Nat.zero_le _
  | field :: fields, (slot, slots), _, ⟨hslot, hslots⟩, h => by
      unfold close at h
      split at h
      · next content hcontent =>
          obtain ⟨rest, hrest, rfl⟩ := exists_of_map_eq_ok h
          have here : (field.sort.encode content).depth ≤ limit := by
            cases slot with
            | some value => exact hslot content hcontent
            | none =>
                rw [FieldSort.depth_encode_absent hcontent]
                exact Nat.zero_le _
          exact Nat.max_le.2 ⟨here, depth_close_le fields hslots hrest⟩
      · cases h

end Slots

namespace Record

variable {fields : List Field} {limit : Nat} {record : Record fields}

theorem depth_ofMembers_le {members : List (String × Candidate)}
    (within : ∀ member ∈ members, member.2.Within limit)
    (h : ofMembers fields members = .ok record) :
    Json.depthMembers (encode fields record) ≤ limit := by
  obtain ⟨filled, hfilled, h⟩ := exists_of_bind_eq_ok h
  exact Slots.depth_close_le fields
    (Slots.within_fillAll members within (Slots.within_empty fields) hfilled) h

theorem depth_ofItems_le {name : String} {size : Nat} :
    (fields : List Field) → {record : Record fields} → {index : Nat} →
    (items : List Candidate) → (∀ item ∈ items, item.Within limit) →
    ofItems name size fields index items = .ok record →
    Json.depthMembers (encode fields record) ≤ limit
  | [], (), _, _, _, _ => Nat.zero_le _
  | field :: fields, _, index, item :: items, within, h => by
      obtain ⟨hitem, within⟩ := List.forall_mem_cons.1 within
      obtain ⟨content, hcontent, h⟩ := exists_of_bind_eq_ok h
      obtain ⟨rest, hrest, h⟩ := exists_of_bind_eq_ok h
      cases h
      exact Nat.max_le.2 ⟨FieldSort.depth_encode_le hitem hcontent,
        depth_ofItems_le fields items within hrest⟩
  | field :: fields, _, index, [], within, h => by
      unfold ofItems at h
      split at h
      · next content hcontent =>
          obtain ⟨rest, hrest, rfl⟩ := exists_of_map_eq_ok h
          refine Nat.max_le.2 ⟨?_, depth_ofItems_le fields [] within hrest⟩
          rw [FieldSort.depth_encode_omitted hcontent]
          exact Nat.zero_le _
      · cases h

end Record

/-! ## Kinds -/

section Kinds

variable {variants : List (Variant c)} {variant : Variant c} {byIndex : Bool} {node : Node c}
  {limit : Nat} {parts : Parts}

theorem mem_of_variantOfTag {tag : Json} (h : variantOfTag byIndex variants tag = .ok variant) :
    variant ∈ variants := by
  unfold variantOfTag at h
  split at h
  · split at h
    · next found => cases h; exact List.mem_of_find?_eq_some found
    · cases h
  · split at h
    · split at h
      · next found => cases h; exact List.mem_of_getElem? found
      · cases h
    · cases h
  · cases h

theorem mem_of_chooseVariant :
    (members : List (String × Json)) → {chosen : Option (Variant c)} →
    (∀ other ∈ chosen, other ∈ variants) →
    chooseVariant byIndex variants chosen members = .ok (some variant) → variant ∈ variants
  | [], _, hchosen, h => hchosen variant (Except.ok.inj h)
  | (key, value) :: members, chosen, hchosen, h => by
      unfold chooseVariant at h
      split at h
      · cases chosen with
        | some => cases h
        | none =>
            obtain ⟨next, hnext, h⟩ := exists_of_bind_eq_ok h
            refine mem_of_chooseVariant members (fun other hother => ?_) h
            cases hother
            exact mem_of_variantOfTag hnext
      · exact mem_of_chooseVariant members hchosen h

/-- The node is read as one of the kinds, from parts that stay below the limit. -/
def ReadAsKind (variants : List (Variant c)) (limit : Nat) (node : Node c) : Prop :=
  ∃ variant ∈ variants, ∃ parts : Parts, parts.Within limit ∧ variant.decode parts = .ok node

theorem readAsKind_of_decodeTagged {label : String} (within : parts.Within limit)
    (h : decodeTagged byIndex label variants parts = .ok node) :
    ReadAsKind variants limit node := by
  cases parts with
  | scalar => cases h
  | map members =>
      obtain ⟨chosen, hchosen, h⟩ := exists_of_bind_eq_ok h
      cases chosen with
      | none => cases h
      | some variant =>
          exact ⟨variant, mem_of_chooseVariant _ (by simp) hchosen, _, within, h⟩
  | sequence items =>
      cases items with
      | nil => cases h
      | cons tag items =>
          obtain ⟨variant, htag, h⟩ := exists_of_bind_eq_ok h
          obtain ⟨inner, hinner, hitems⟩ := within
          exact ⟨variant, mem_of_variantOfTag htag, .sequence items,
            ⟨inner, hinner, fun item hitem => hitems item (List.mem_cons_of_mem _ hitem)⟩, h⟩

theorem readAsKind_of_decodeUnion {label : String} (within : parts.Within limit) :
    (layers : List (List (Variant c))) → decodeUnion label layers parts = .ok node →
    ReadAsKind layers.flatten limit node
  | [], h => nomatch h
  | variants :: layers, h => by
      unfold decodeUnion at h
      split at h
      · next found =>
          cases h
          obtain ⟨variant, hmem, rest⟩ := readAsKind_of_decodeTagged within found
          exact ⟨variant, List.mem_append_left _ hmem, rest⟩
      · obtain ⟨variant, hmem, rest⟩ := readAsKind_of_decodeUnion within layers h
        exact ⟨variant, List.mem_append_right _ hmem, rest⟩

theorem Variant.exists_record_of_decode (within : parts.Within limit)
    (h : variant.decode parts = .ok node) :
    ∃ record, variant.build record = node ∧
      Json.depthMembers (Record.encode variant.fields record) < limit := by
  cases parts with
  | scalar => cases h
  | map members =>
      obtain ⟨record, hrecord, rfl⟩ := exists_of_map_eq_ok h
      obtain ⟨inner, hinner, hmembers⟩ := within
      exact ⟨record, rfl,
        Nat.lt_of_le_of_lt (Record.depth_ofMembers_le hmembers hrecord) hinner⟩
  | sequence items =>
      obtain ⟨record, hrecord, rfl⟩ := exists_of_map_eq_ok h
      obtain ⟨inner, hinner, hitems⟩ := within
      exact ⟨record, rfl,
        Nat.lt_of_le_of_lt (Record.depth_ofItems_le _ items hitems hrecord) hinner⟩

theorem Form.depth_wrap (form : Form c) (name : String) (members : List (String × Json)) :
    (form.wrap name members).depth = Json.depthMembers members + 1 := by
  have hkind : (Json.kind name members).depth = Json.depthMembers members + 1 := by
    simp [Json.kind, Json.depth, Json.depthMembers]
  cases form <;> exact hkind

theorem depth_toJson_le_of_readAsKind (h : ReadAsKind (Form.of c).variants limit node) :
    node.toJson.depth ≤ limit := by
  obtain ⟨variant, offered, parts, within, hdecode⟩ := h
  obtain ⟨record, rfl, hdepth⟩ := variant.exists_record_of_decode within hdecode
  rw [Variant.toJson_build offered, Form.depth_wrap]
  exact hdepth

end Kinds

/-! ## Forms -/

theorem depth_toJson_le_of_decodeEach {limit : Nat} :
    (items : List Candidate) → (∀ item ∈ items, item.Within limit) →
    {node : Node (.list c)} → decodeEach c items = .ok node → node.toJson.depth ≤ limit + 1
  | [], _, _, h => by
      cases h
      exact Nat.le_add_left 1 limit
  | item :: items, within, _, h => by
      obtain ⟨hitem, within⟩ := List.forall_mem_cons.1 within
      obtain ⟨head, hhead, h⟩ := exists_of_bind_eq_ok h
      obtain ⟨tail, htail, h⟩ := exists_of_bind_eq_ok h
      cases h
      have hfirst := hitem c head hhead
      have hrest := depth_toJson_le_of_decodeEach items within htail
      obtain ⟨jsons, hjsons⟩ := tail.exists_items
      rw [hjsons] at hrest
      rw [Node.toJson_cons head hjsons]
      exact Nat.succ_le_succ (Nat.max_le.2 ⟨hfirst, Nat.le_of_succ_le_succ hrest⟩)

namespace Form

variable {limit : Nat} {parts : Parts} {byIndex : Bool}

theorem readAsKind_of_decode {form : Form c} {node : Node c} (base : form.variants.isEmpty = false)
    (within : parts.Within limit) (h : form.decode byIndex parts = .ok node) :
    ReadAsKind form.variants limit node := by
  cases form with
  | record variant => exact ⟨variant, List.mem_singleton_self variant, parts, within, h⟩
  | tagged label variants =>
      obtain ⟨variant, hmem, rest⟩ := readAsKind_of_decodeTagged within h
      exact ⟨variant, List.mem_append_left [] hmem, rest⟩
  | union label layers => exact readAsKind_of_decodeUnion within layers h
  | each | optional => cases base

/-- What holds of the parts of a value holds of a node that is read from them. -/
theorem depth_toJson_le (within : parts.Within limit) :
    (c : Category) → {node : Node c} → (Form.of c).decode byIndex parts = .ok node →
    node.toJson.depth ≤ limit := by
  intro c
  induction c with
  | list c =>
      intro node h
      cases parts with
      | scalar | map => cases h
      | sequence items =>
          obtain ⟨inner, hinner, hitems⟩ := within
          exact Nat.le_trans (depth_toJson_le_of_decodeEach items hitems h) hinner
  | option c ih =>
      intro node h
      by_cases hnull : parts = .scalar .null
      · subst hnull
        cases h
        exact Nat.zero_le limit
      · have h : (Form.optional (Form.of c)).decode byIndex parts = .ok node := h
        rw [decode_optional hnull] at h
        obtain ⟨child, hchild, rfl⟩ := exists_of_map_eq_ok h
        exact ih hchild
  | _ =>
      intro node h
      exact depth_toJson_le_of_readAsKind (readAsKind_of_decode rfl within h)

end Form

/-! ## Values -/

namespace Json

mutual

theorem within_parts : (json : Json) → json.parts.Within json.depth
  | .null | .bool _ | .number _ | .string _ => trivial
  | .array items => ⟨depthItems items, Nat.lt_succ_self _, within_candidates items⟩
  | .object members => ⟨depthMembers members, Nat.lt_succ_self _, within_memberCandidates members⟩

theorem within_candidate (json : Json) : json.candidate.Within json.depth := by
  intro c node h
  rw [node_candidate] at h
  exact Form.depth_toJson_le (within_parts json) c h

theorem within_candidates : (items : List Json) →
    ∀ item ∈ candidates items, item.Within (depthItems items)
  | [] => nofun
  | item :: items => List.forall_mem_cons.2
      ⟨(within_candidate item).mono (Nat.le_max_left _ _), fun other hother =>
        (within_candidates items other hother).mono (Nat.le_max_right _ _)⟩

theorem within_memberCandidates : (members : List (String × Json)) →
    ∀ member ∈ memberCandidates members, member.2.Within (depthMembers members)
  | [] => nofun
  | (_, value) :: members => List.forall_mem_cons.2
      ⟨(within_candidate value).mono (Nat.le_max_left _ _), fun other hother =>
        (within_memberCandidates members other hother).mono (Nat.le_max_right _ _)⟩

end

/-- A node nests at most as deep as any value that it is read from. -/
theorem depth_toJson_le {json : Json} {node : Node c} (h : json.toNode c = .ok node) :
    node.toJson.depth ≤ json.depth :=
  Form.depth_toJson_le (within_parts json) c h

end Json

end EcmaScribe
