/-
# EcmaScribe.Proofs.Json.Reading -- values read back from their text

`Json.readDocument_text`: the text of a value whose numbers are read back, and in which at
most `nestingLimit` containers nest, is read as that value, and nothing of the text is left.
`Json.depth_of_readDocument` is the other half: what is read never nests deeper.

The loops over elements and members are stated for any reader of values
(`readElements_text`, `readMembers_text`); the induction on the value then supplies the
reader with one level and one unit of fuel less.  The fuel lasts because every value has at
least one character, so a text is longer than what it holds.
-/
import EcmaScribe.Proofs.Json.Scalar

namespace EcmaScribe

set_option autoImplicit false

namespace Json

/-! ## The numbers of a value -/

mutual

def numbers : Json → List JsonNumber
  | number value => [value]
  | array items => numbersItems items
  | object members => numbersMembers members
  | _ => []

def numbersItems : List Json → List JsonNumber
  | [] => []
  | item :: rest => item.numbers ++ numbersItems rest

def numbersMembers : List (String × Json) → List JsonNumber
  | [] => []
  | (_, value) :: rest => value.numbers ++ numbersMembers rest

end

theorem forall_numbersItems {P : JsonNumber → Prop} : {items : List Json} →
    (∀ number ∈ numbersItems items, P number) → ∀ json ∈ items, ∀ number ∈ json.numbers, P number
  | [], _ => nofun
  | _ :: _, h =>
      have ⟨here, rest⟩ := List.forall_mem_append.1 h
      List.forall_mem_cons.2 ⟨here, forall_numbersItems rest⟩

/-! ## How a text starts -/

def isContainer : Json → Bool
  | array _ | object _ => true
  | _ => false

/-- A character that starts a value. -/
def Opens (c : Char) : Prop := isBlank c = false ∧ c ≠ ']' ∧ c ≠ '\x7d'

theorem opens_of_isDigit {c : Char} (digit : isDigit c = true) : Opens c := by
  have other {d : Char} : isDigit d = false → c ≠ d := ne_of_isDigit digit
  refine ⟨?_, other rfl, other rfl⟩
  simp [isBlank, other (d := ' ') rfl, other (d := '\n') rfl, other (d := '\t') rfl,
    other (d := '\x0d') rfl]

theorem exists_cons_text {json : Json} (back : ∀ number ∈ json.numbers, number.IsReadBack) :
    ∃ c cs, json.text = c :: cs ∧ Opens c ∧
      (json.isContainer = false → c ≠ '[' ∧ c ≠ '\x7b') := by
  cases json with
  | null => exact ⟨_, _, rfl, ⟨by decide, by decide, by decide⟩, fun _ => by decide⟩
  | bool value =>
      cases value <;>
        exact ⟨_, _, rfl, ⟨by decide, by decide, by decide⟩, fun _ => by decide⟩
  | string => exact ⟨_, _, rfl, ⟨by decide, by decide, by decide⟩, fun _ => by decide⟩
  | array => exact ⟨_, _, rfl, ⟨by decide, by decide, by decide⟩, nofun⟩
  | object => exact ⟨_, _, rfl, ⟨by decide, by decide, by decide⟩, nofun⟩
  | number value =>
      obtain ⟨⟨c, cs, htext, hc⟩, -⟩ := readScalar_number (back value List.mem_cons_self)
      refine ⟨c, cs, htext, ?_⟩
      rcases hc with rfl | digit
      · exact ⟨⟨by decide, by decide, by decide⟩, fun _ => by decide⟩
      · exact ⟨opens_of_isDigit digit, fun _ =>
          ⟨ne_of_isDigit digit rfl, ne_of_isDigit digit rfl⟩⟩

theorem skipBlank_of_opens {c : Char} (opens : Opens c) (cs : List Char) :
    skipBlank (c :: cs) = c :: cs :=
  List.dropWhile_cons_of_neg (by simp [opens.1])

/-! ## Elements and members -/

section Loops

variable {item : List Char → Reading Json}

/-- The reader reads a value in front of every text that does not continue it. -/
def ReadsBy (item : List Char → Reading Json) (json : Json) : Prop :=
  ∀ rest, Ends rest → item (json.text ++ rest) = .ok (json, rest)

theorem ends_comma (rest : List Char) : Ends (',' :: rest) := .cons (by decide) rest

theorem ends_bracket (rest : List Char) : Ends (']' :: rest) := .cons (by decide) rest

theorem ends_brace (rest : List Char) : Ends ('\x7d' :: rest) := .cons (by decide) rest

theorem readElements_text (rest : List Char) :
    (items : List Json) → items ≠ [] → (∀ json ∈ items, ReadsBy item json) →
    (fuel : Nat) → items.length ≤ fuel → (done : List Json) →
    readElements item fuel done (textItems items ++ ']' :: rest) =
      .ok (done.reverse ++ items, rest)
  | [], h, _, _, _, _ => absurd rfl h
  | _ :: _, _, _, 0, hfuel, _ => absurd hfuel (Nat.not_succ_le_zero _)
  | [json], _, reads, fuel + 1, _, done => by
      have read := reads json List.mem_cons_self (']' :: rest) (ends_bracket rest)
      simp [readElements, textItems, read, skipBlank, isBlank]
  | json :: next :: items, _, reads, fuel + 1, hfuel, done => by
      obtain ⟨read, reads⟩ := List.forall_mem_cons.1 reads
      have read := read (',' :: (textItems (next :: items) ++ ']' :: rest)) (ends_comma _)
      have more := readElements_text rest (next :: items) (List.cons_ne_nil _ _) reads fuel
        (Nat.le_of_succ_le_succ hfuel) (json :: done)
      simp [readElements, textItems, read, skipBlank, isBlank, more]

theorem readKey_quote (key : String) (rest : List Char) :
    readKey (quote key ++ rest) = .ok (key, rest) := by
  have read := readString_quoted key rest
  simp [readKey, quote, skipBlank, isBlank, read]

theorem readColon_colon (rest : List Char) : readColon (':' :: rest) = .ok rest := by
  simp [readColon, skipBlank, isBlank]

theorem readMembers_text (rest : List Char) :
    (members : List (String × Json)) → members ≠ [] →
    (∀ member ∈ members, ReadsBy item member.2) →
    (fuel : Nat) → members.length ≤ fuel → (done : List (String × Json)) →
    readMembers item fuel done (textMembers members ++ '\x7d' :: rest) =
      .ok (done.reverse ++ members, rest)
  | [], h, _, _, _, _ => absurd rfl h
  | _ :: _, _, _, 0, hfuel, _ => absurd hfuel (Nat.not_succ_le_zero _)
  | [(key, json)], _, reads, fuel + 1, _, done => by
      have read := reads (key, json) List.mem_cons_self ('\x7d' :: rest) (ends_brace rest)
      simp [readMembers, textMembers, readKey_quote, readColon_colon, read, skipBlank, isBlank]
  | (key, json) :: next :: members, _, reads, fuel + 1, hfuel, done => by
      obtain ⟨read, reads⟩ := List.forall_mem_cons.1 reads
      have read := read (',' :: (textMembers (next :: members) ++ '\x7d' :: rest)) (ends_comma _)
      have more := readMembers_text rest (next :: members) (List.cons_ne_nil _ _) reads fuel
        (Nat.le_of_succ_le_succ hfuel) ((key, json) :: done)
      simp [readMembers, textMembers, readKey_quote, readColon_colon, read, skipBlank, isBlank,
        more]

theorem exists_cons_textItems {json : Json} {c : Char} {cs : List Char}
    (h : json.text = c :: cs) (items : List Json) :
    ∃ tail, textItems (json :: items) = c :: tail := by
  cases items with
  | nil => exact ⟨cs, h⟩
  | cons next items => exact ⟨cs ++ ',' :: textItems (next :: items), by simp [textItems, h]⟩

theorem exists_cons_textMembers (key : String) (json : Json) (members : List (String × Json)) :
    ∃ tail, textMembers ((key, json) :: members) = '\x22' :: tail := by
  cases members with
  | nil => exact ⟨_, by simp [textMembers, quote]; rfl⟩
  | cons next members => exact ⟨_, by simp [textMembers, quote]; rfl⟩

theorem readArray_text {items : List Json} {fuel : Nat} (rest : List Char)
    (back : ∀ json ∈ items, ∀ number ∈ json.numbers, number.IsReadBack)
    (reads : ∀ json ∈ items, ReadsBy item json) (hfuel : items.length ≤ fuel) :
    readArray item fuel (textItems items ++ ']' :: rest) = .ok (items, rest) := by
  cases items with
  | nil => rfl
  | cons json items =>
      obtain ⟨c, cs, htext, opens, -⟩ := exists_cons_text (back json List.mem_cons_self)
      obtain ⟨tail, hstart⟩ := exists_cons_textItems htext items
      have read := readElements_text rest (json :: items) (List.cons_ne_nil _ _) reads fuel hfuel []
      rw [hstart, List.cons_append] at read ⊢
      rw [readArray, skipBlank_of_opens opens]
      split
      · next heq => exact absurd (List.head_eq_of_cons_eq heq) opens.2.1
      · exact read

theorem readObject_text {members : List (String × Json)} {fuel : Nat} (rest : List Char)
    (reads : ∀ member ∈ members, ReadsBy item member.2) (hfuel : members.length ≤ fuel) :
    readObject item fuel (textMembers members ++ '\x7d' :: rest) = .ok (members, rest) := by
  cases members with
  | nil => rfl
  | cons member members =>
      obtain ⟨key, json⟩ := member
      obtain ⟨tail, hstart⟩ := exists_cons_textMembers key json members
      have read := readMembers_text rest ((key, json) :: members) (List.cons_ne_nil _ _) reads fuel
        hfuel []
      rw [hstart, List.cons_append] at read ⊢
      rw [readObject, skipBlank_of_opens ⟨by decide, by decide, by decide⟩]
      exact read

end Loops

/-! ## Values -/

theorem length_le_textItems {items : List Json}
    (back : ∀ json ∈ items, ∀ number ∈ json.numbers, number.IsReadBack) :
    items.length ≤ (textItems items).length := by
  induction items with
  | nil => exact Nat.le_refl 0
  | cons json items ih =>
      obtain ⟨here, back⟩ := List.forall_mem_cons.1 back
      obtain ⟨c, cs, htext, -⟩ := exists_cons_text here
      cases items with
      | nil => simp [textItems, htext]
      | cons next items =>
          have := ih back
          simp [textItems, htext] at this ⊢
          omega

theorem length_le_textMembers (members : List (String × Json)) :
    members.length ≤ (textMembers members).length := by
  induction members with
  | nil => exact Nat.le_refl 0
  | cons member members ih =>
      obtain ⟨key, json⟩ := member
      cases members with
      | nil => simp [textMembers, quote]
      | cons next members =>
          simp [textMembers, quote] at ih ⊢
          omega

/-- A value that is no container is read as it stands. -/
theorem readsBy_readScalar {json : Json} (scalar : json.isContainer = false)
    (back : ∀ number ∈ json.numbers, number.IsReadBack) : ReadsBy readScalar json := by
  intro rest ends
  cases json with
  | array | object => cases scalar
  | null => rfl
  | bool value => cases value <;> rfl
  | number value => exact (readScalar_number (back value List.mem_cons_self)).2 rest ends
  | string value =>
      have read := readString_quoted value rest
      simp [text, quote, readScalar, read, Except.map]

/-- What starts no container is left to the reader of scalars. -/
theorem readValue_of_scalar {c : Char} (opens : Opens c) (scalar : c ≠ '[' ∧ c ≠ '\x7b')
    (fuel depth : Nat) (cs : List Char) :
    readValue (fuel + 1) depth (c :: cs) = readScalar (c :: cs) := by
  rw [readValue, skipBlank_of_opens opens]
  split
  · next heq => exact absurd (List.head_eq_of_cons_eq heq) scalar.1
  · next heq => exact absurd (List.head_eq_of_cons_eq heq) scalar.2
  · rfl

theorem readsBy_readValue_scalar {json : Json} (scalar : json.isContainer = false)
    (back : ∀ number ∈ json.numbers, number.IsReadBack) (fuel depth : Nat) :
    ReadsBy (readValue (fuel + 1) depth) json := by
  intro rest ends
  obtain ⟨c, cs, htext, opens, noContainer⟩ := exists_cons_text back
  have read := readsBy_readScalar scalar back rest ends
  rw [htext, List.cons_append] at read ⊢
  rw [readValue_of_scalar opens (noContainer scalar), read]

mutual

/-- With more fuel than the text is long, and as many levels as nest, a value is read back. -/
theorem readsBy_readValue : (json : Json) → (∀ number ∈ json.numbers, number.IsReadBack) →
    {fuel depth : Nat} → json.text.length < fuel → json.depth ≤ depth →
    ReadsBy (readValue fuel depth) json
  | _, _, 0, _, hfuel, _ => absurd hfuel (Nat.not_lt_zero _)
  | .null, back, fuel + 1, depth, _, _ => readsBy_readValue_scalar rfl back fuel depth
  | .bool _, back, fuel + 1, depth, _, _ => readsBy_readValue_scalar rfl back fuel depth
  | .number _, back, fuel + 1, depth, _, _ => readsBy_readValue_scalar rfl back fuel depth
  | .string _, back, fuel + 1, depth, _, _ => readsBy_readValue_scalar rfl back fuel depth
  | .array _, _, _ + 1, 0, _, hdepth => nomatch hdepth
  | .array items, back, fuel + 1, depth + 1, hfuel, hdepth => fun rest _ => by
      have hlength : (textItems items).length < fuel := by
        simp [text] at hfuel
        omega
      have reads := readsBy_readValue_items items back hlength (Nat.le_of_succ_le_succ hdepth)
      have read : readArray (readValue fuel depth) fuel (textItems items ++ ']' :: rest) = _ :=
        readArray_text rest (forall_numbersItems back) reads
          (Nat.le_trans (length_le_textItems (forall_numbersItems back)) (Nat.le_of_lt hlength))
      simp [text, readValue, skipBlank, isBlank, read]
  | .object _, _, _ + 1, 0, _, hdepth => nomatch hdepth
  | .object members, back, fuel + 1, depth + 1, hfuel, hdepth => fun rest _ => by
      have hlength : (textMembers members).length < fuel := by
        simp [text] at hfuel
        omega
      have reads := readsBy_readValue_members members back hlength
        (Nat.le_of_succ_le_succ hdepth)
      have read : readObject (readValue fuel depth) fuel (textMembers members ++ '\x7d' :: rest) =
          _ := readObject_text rest reads
        (Nat.le_trans (length_le_textMembers members) (Nat.le_of_lt hlength))
      simp [text, readValue, skipBlank, isBlank, read]

theorem readsBy_readValue_items : (items : List Json) →
    (∀ number ∈ numbersItems items, number.IsReadBack) → {fuel depth : Nat} →
    (textItems items).length < fuel → depthItems items ≤ depth →
    ∀ json ∈ items, ReadsBy (readValue fuel depth) json
  | [], _, _, _, _, _ => nofun
  | json :: items, back, fuel, depth, hfuel, hdepth => by
      obtain ⟨here, rest⟩ := List.forall_mem_append.1 back
      obtain ⟨hhere, hrest⟩ := Nat.max_le.1 hdepth
      have lengths : json.text.length < fuel ∧ (textItems items).length < fuel := by
        cases items <;> simp [textItems] at hfuel ⊢ <;> omega
      exact List.forall_mem_cons.2 ⟨readsBy_readValue json here lengths.1 hhere,
        readsBy_readValue_items items rest lengths.2 hrest⟩

theorem readsBy_readValue_members : (members : List (String × Json)) →
    (∀ number ∈ numbersMembers members, number.IsReadBack) → {fuel depth : Nat} →
    (textMembers members).length < fuel → depthMembers members ≤ depth →
    ∀ member ∈ members, ReadsBy (readValue fuel depth) member.2
  | [], _, _, _, _, _ => nofun
  | (key, json) :: members, back, fuel, depth, hfuel, hdepth => by
      obtain ⟨here, rest⟩ := List.forall_mem_append.1 back
      obtain ⟨hhere, hrest⟩ := Nat.max_le.1 hdepth
      have lengths : json.text.length < fuel ∧ (textMembers members).length < fuel := by
        cases members <;> simp [textMembers] at hfuel ⊢ <;> omega
      exact List.forall_mem_cons.2 ⟨readsBy_readValue json here lengths.1 hhere,
        readsBy_readValue_members members rest lengths.2 hrest⟩

end

/-! ## Documents -/

theorem readDocument_bracket (cs : List Char) :
    readDocument ('[' :: cs) =
      match readArray (readValue (('[' :: cs).length + 1) (nestingLimit - 1))
        (('[' :: cs).length + 1) cs with
      | .error broken => .brokenArray broken
      | .ok (items, rest) => .value (.array items) rest :=
  rfl

theorem readDocument_brace (cs : List Char) :
    readDocument ('\x7b' :: cs) =
      match readObject (readValue (('\x7b' :: cs).length + 1) (nestingLimit - 1))
        (('\x7b' :: cs).length + 1) cs with
      | .error broken => .brokenObject broken
      | .ok (members, rest) => .value (.object members) rest :=
  rfl

/-- A value that nests no deeper than the limit is read back from its text, with nothing left. -/
theorem readDocument_text {json : Json} (back : ∀ number ∈ json.numbers, number.IsReadBack)
    (hdepth : json.depth ≤ nestingLimit) : readDocument json.text = .value json [] := by
  have scalar (hscalar : json.isContainer = false) : readDocument json.text = .value json [] := by
    obtain ⟨c, cs, htext, opens, noContainer⟩ := exists_cons_text back
    have read := readsBy_readScalar hscalar back [] ends_nil
    rw [List.append_nil, htext] at read
    rw [htext, readDocument, skipBlank_of_opens opens]
    split
    · next heq => exact absurd (List.head_eq_of_cons_eq heq) (noContainer hscalar).1
    · next heq => exact absurd (List.head_eq_of_cons_eq heq) (noContainer hscalar).2
    · rw [read]
  cases json with
  | null | bool | number | string => exact scalar rfl
  | array items =>
      have hitems : depthItems items ≤ nestingLimit - 1 := Nat.le_of_lt_succ hdepth
      have hlength : (textItems items).length < (array items).text.length + 1 := by
        simp [text]
        omega
      have read := readArray_text [] (forall_numbersItems back)
        (readsBy_readValue_items items back hlength hitems)
        (Nat.le_trans (length_le_textItems (forall_numbersItems back)) (Nat.le_of_lt hlength))
      rw [text, List.cons_append, readDocument_bracket]
      rw [text, List.cons_append] at read
      rw [read]
  | object members =>
      have hmembers : depthMembers members ≤ nestingLimit - 1 := Nat.le_of_lt_succ hdepth
      have hlength : (textMembers members).length < (object members).text.length + 1 := by
        simp [text]
        omega
      have read := readObject_text []
        (readsBy_readValue_members members back hlength hmembers)
        (Nat.le_trans (length_le_textMembers members) (Nat.le_of_lt hlength))
      rw [text, List.cons_append, readDocument_brace]
      rw [text, List.cons_append] at read
      rw [read]

/-! ## What is read never nests too deep -/

theorem depthItems_le {depth : Nat} {items : List Json} :
    depthItems items ≤ depth ↔ ∀ json ∈ items, json.depth ≤ depth := by
  induction items with
  | nil => simp [depthItems]
  | cons json items ih => rw [depthItems, Nat.max_le, ih, List.forall_mem_cons]

theorem depthMembers_le {depth : Nat} {members : List (String × Json)} :
    depthMembers members ≤ depth ↔ ∀ member ∈ members, member.2.depth ≤ depth := by
  induction members with
  | nil => simp [depthMembers]
  | cons member members ih => rw [depthMembers, Nat.max_le, ih, List.forall_mem_cons]

section Loops

variable {item : List Char → Reading Json} {depth : Nat}

/-- What the reader reads nests at most so deep. -/
def ReadsWithin (item : List Char → Reading Json) (depth : Nat) : Prop :=
  ∀ cs json rest, item cs = .ok (json, rest) → json.depth ≤ depth

theorem depth_of_readElements (within : ReadsWithin item depth) (fuel : Nat)
    {done items : List Json} {cs rest : List Char} (hdone : ∀ json ∈ done, json.depth ≤ depth)
    (h : readElements item fuel done cs = .ok (items, rest)) :
    ∀ json ∈ items, json.depth ≤ depth := by
  induction fuel generalizing done cs with
  | zero => cases h
  | succ fuel ih =>
      unfold readElements at h
      split at h
      · cases h
      · next json tail hread =>
          have hnext : ∀ other ∈ json :: done, other.depth ≤ depth :=
            List.forall_mem_cons.2 ⟨within cs json tail hread, hdone⟩
          split at h
          · cases h
          · split at h
            · cases h
              exact fun other hother => hnext other (List.mem_reverse.1 hother)
            · split at h
              · exact ih hnext h
              · cases h

theorem depth_of_readMembers (within : ReadsWithin item depth) (fuel : Nat)
    {done members : List (String × Json)} {cs rest : List Char}
    (hdone : ∀ member ∈ done, member.2.depth ≤ depth)
    (h : readMembers item fuel done cs = .ok (members, rest)) :
    ∀ member ∈ members, member.2.depth ≤ depth := by
  induction fuel generalizing done cs with
  | zero => cases h
  | succ fuel ih =>
      unfold readMembers at h
      split at h
      · cases h
      · next key tail hkey =>
          split at h
          · cases h
          · next tail' hcolon =>
              split at h
              · cases h
              · next json tail'' hread =>
                  have hnext : ∀ other ∈ (key, json) :: done, other.2.depth ≤ depth :=
                    List.forall_mem_cons.2 ⟨within _ json _ hread, hdone⟩
                  split at h
                  · cases h
                  · split at h
                    · cases h
                      exact fun other hother => hnext other (List.mem_reverse.1 hother)
                    · split at h
                      · exact ih hnext h
                      · cases h

theorem depth_of_readArray (within : ReadsWithin item depth) {fuel : Nat}
    {items : List Json} {cs rest : List Char} (h : readArray item fuel cs = .ok (items, rest)) :
    depthItems items ≤ depth := by
  unfold readArray at h
  split at h
  · cases h
    exact Nat.zero_le depth
  · exact depthItems_le.2 (depth_of_readElements within fuel (List.forall_mem_nil _) h)

theorem depth_of_readObject (within : ReadsWithin item depth) {fuel : Nat}
    {members : List (String × Json)} {cs rest : List Char}
    (h : readObject item fuel cs = .ok (members, rest)) : depthMembers members ≤ depth := by
  unfold readObject at h
  split at h
  · cases h
    exact Nat.zero_le depth
  · exact depthMembers_le.2 (depth_of_readMembers within fuel (List.forall_mem_nil _) h)

end Loops

theorem depth_of_readMagnitude {negative : Bool} {cs rest : List Char} {json : Json}
    (h : readMagnitude negative cs = .ok (json, rest)) : json.depth = 0 := by
  obtain ⟨_, _, h⟩ := exists_of_bind_eq_ok h
  obtain ⟨_, _, h⟩ := exists_of_bind_eq_ok h
  obtain ⟨_, _, h⟩ := exists_of_bind_eq_ok h
  obtain ⟨_, _, h⟩ := exists_of_bind_eq_ok h
  cases h
  rfl

theorem depth_of_readScalar {cs rest : List Char} {json : Json}
    (h : readScalar cs = .ok (json, rest)) : json.depth = 0 := by
  cases cs with
  | nil => cases h
  | cons c cs =>
      obtain ⟨depth, -⟩ | ⟨-, read⟩ | ⟨-, read⟩ := readScalar_cases h
      · exact depth
      · exact depth_of_readMagnitude read
      · exact depth_of_readMagnitude read

theorem readsWithin_readValue (fuel depth : Nat) : ReadsWithin (readValue fuel depth) depth := by
  induction fuel generalizing depth with
  | zero => exact nofun
  | succ fuel ih =>
      intro cs json rest h
      cases depth with
      | zero =>
          unfold readValue at h
          split at h
          · cases h
          · cases h
          · exact Nat.le_of_eq (depth_of_readScalar h)
      | succ depth =>
          unfold readValue at h
          split at h
          · rw [if_neg (Nat.succ_ne_zero depth)] at h
            split at h
            · cases h
            · next hread =>
                cases h
                exact Nat.succ_le_succ (depth_of_readArray (ih depth) hread)
          · rw [if_neg (Nat.succ_ne_zero depth)] at h
            split at h
            · cases h
            · next hread =>
                cases h
                exact Nat.succ_le_succ (depth_of_readObject (ih depth) hread)
          · exact Nat.le_trans (Nat.le_of_eq (depth_of_readScalar h)) (Nat.zero_le _)

/-- The value of a text nests no deeper than the limit. -/
theorem depth_of_readDocument {cs rest : List Char} {json : Json}
    (h : readDocument cs = .value json rest) : json.depth ≤ nestingLimit := by
  have within := readsWithin_readValue (cs.length + 1) (nestingLimit - 1)
  unfold readDocument at h
  dsimp only at h
  split at h
  · split at h
    · cases h
    · next hread =>
        cases h
        exact Nat.succ_le_succ (depth_of_readArray within hread)
  · split at h
    · cases h
    · next hread =>
        cases h
        exact Nat.succ_le_succ (depth_of_readObject within hread)
  · split at h
    · cases h
    · next hread =>
        cases h
        exact Nat.le_trans (Nat.le_of_eq (depth_of_readScalar hread)) (Nat.zero_le _)

end Json

end EcmaScribe
