/-
# EcmaScribe.Proofs.Text.Resanitize -- sanitizing a part of a text first

Safe output sanitizes twice: the text of a literal before its delimiters are put around it, and
the token that comes out.  `sanitize_around` says that the first time could be left out, provided
the delimiters keep runs of backslashes apart.

The pass that breaks tags crosses every seam: the first half of an opener may stand on the left
and its terminator on the right.  So `scriptTagPass_around` is an induction along the scan of the
part in the middle.  What is copied moves over to the text on the left; a tag that is broken was
going to be broken in the whole text as well, since everything up to its terminator is there, and
no tag starts before a `<` and ends behind it.
-/
import EcmaScribe.Proofs.Text.NameEscape

namespace EcmaScribe.Text

set_option autoImplicit false

/-! ## The passes that write escapes -/

/-- A character that neither is escaped nor takes part in a run of backslashes. -/
def IsInert (c : Char) : Prop := isAscii c = true ∧ c ≠ '\x00' ∧ c ≠ '\\'

instance (c : Char) : Decidable (IsInert c) :=
  inferInstanceAs (Decidable (isAscii c = true ∧ c ≠ '\x00' ∧ c ≠ '\\'))

/-- The text after the first two passes. -/
def escaped (text : List Char) : List Char := nonAsciiPass.apply (nulPass.apply text)

theorem sanitize_eq_scriptTagPass (text : List Char) :
    sanitize text = scriptTagPass.apply (escaped text) := rfl

/-- Everything escaped is ASCII without NUL. -/
theorem forall_mem_escaped (text : List Char) :
    ∀ c ∈ escaped text, isAscii c = true ∧ c ≠ '\x00' := by
  refine forall_mem_nonAsciiPass (by decide) (by decide) (by decide) (by decide) ?_
  refine forall_mem_nulPass (P := fun c => isAscii c = true → isAscii c = true ∧ c ≠ '\x00')
    (by decide) (by decide) ?_
  exact fun c _ nonzero ascii => ⟨ascii, nonzero⟩

theorem escaped_eq_self {text : List Char} (clean : ∀ c ∈ text, isAscii c = true ∧ c ≠ '\x00') :
    escaped text = text := by
  rw [escaped, nulPass_eq_self fun c member => (clean c member).2,
    nonAsciiPass_eq_self fun c member => (clean c member).1]

theorem nulPass_append {left right : List Char} (apart : Apart IsInert left right) :
    nulPass.apply (left ++ right) = nulPass.apply left ++ nulPass.apply right :=
  replaceAll_append_of_apart rfl
    (apart.imp fun _ inert => ⟨by simpa [isNul] using inert.2.1, inert.2.2⟩)

/-- An inert character stays where it is. -/
theorem apart_nulPass {left right : List Char} (apart : Apart IsInert left right) :
    Apart IsInert (nulPass.apply left) (nulPass.apply right) := by
  rcases apart with last | first
  · refine .inl fun c ends => ?_
    cases left with
    | nil => cases ends
    | cons d left =>
        have same := List.getLast?_eq_some_getLast (List.cons_ne_nil d left)
        have inert := last _ same
        have stays : (nulPass.apply (d :: left)).getLast? = _ :=
          getLast?_replaceAll_afterBackslashes (by simpa [isNul] using inert.2.1) same
        rw [stays] at ends
        cases ends
        exact inert
  · refine .inr fun c starts => ?_
    cases right with
    | nil => cases starts
    | cons d right =>
        have inert := first d rfl
        have missed : afterBackslashes isNul (d :: right) = none := by
          simp [afterBackslashes, inert.2.2, isNul, inert.2.1]
        rw [show nulPass.apply (d :: right) = d :: nulPass.apply right from
          replaceAll_of_none missed] at starts
        cases starts
        exact inert

theorem escaped_append {left right : List Char} (apart : Apart IsInert left right) :
    escaped (left ++ right) = escaped left ++ escaped right := by
  rw [escaped, nulPass_append apart]
  exact replaceAll_append_of_apart rfl
    ((apart_nulPass apart).imp fun _ inert => ⟨by simp [inert.1], inert.2.2⟩)

/-! ## The pass that breaks tags -/

/-- A tag is found by its own characters. -/
theorem scriptTag_append {text : List Char} {m : Match} (found : scriptTag text = some m)
    (right : List Char) : scriptTag (text ++ right) = some m := by
  obtain ⟨slash, s, tail, c, isSlash, rfl, word, place, terminator, rfl⟩ :=
    scriptTag_eq_some_iff.1 found
  have inside : 5 < tail.length := (List.getElem?_eq_some_iff.1 place).1
  refine scriptTag_eq_some_iff.2
    ⟨slash, s, tail ++ right, c, isSlash, by simp, ?_, ?_, terminator, ?_⟩
  · rw [← List.cons_append, startsWithWord_append right (length_le_of_startsWithWord word), word]
  · rw [List.getElem?_append_left inside, place]
  · rw [List.take_append_of_le_length inside]

theorem length_of_scriptTag {c : Char} {rest : List Char} {m : Match}
    (found : scriptTag (c :: rest) = some m) : m.whole.length - 1 ≤ rest.length := by
  obtain ⟨slash, s, name, after, -, joined, -, -, rfl⟩ := scriptTag_eq_some found
  have := congrArg List.length joined
  simp only [List.length_cons, List.length_append] at this ⊢
  omega

/-- No tag starts before a `<` and ends behind it. -/
theorem scriptTag_append_of_none {left rest : List Char} (nonempty : left ≠ [])
    (missed : scriptTag left = none) : scriptTag (left ++ '<' :: rest) = none := by
  by_contra found
  obtain ⟨n, c, opener, place, terminator⟩ :=
    scriptTag_isSome_iff.1 (Option.isSome_iff_ne_none.2 found)
  have foreign : (left ++ '<' :: rest)[left.length]? = some '<' := by simp
  have positive := List.length_pos_iff.2 nonempty
  have inside : n < left.length := by
    by_contra beyond
    by_cases atSeam : n = left.length
    · rw [atSeam, foreign] at place
      cases place
      simp [endsTagName] at terminator
    · obtain ⟨d, left, rfl⟩ := List.exists_cons_of_ne_nil nonempty
      exact getElem?_ne_of_openerLength? opener left.length (by simp at beyond atSeam ⊢; omega)
        (by simp)
  have tag : (scriptTag left).isSome = true := by
    refine scriptTag_isSome_iff.2 ⟨n, c, openerLength?_of_append opener (by omega), ?_, terminator⟩
    rwa [List.getElem?_append_left inside] at place
  simp [missed] at tag

/-- Text without `<` is copied, whatever comes after it. -/
theorem scriptTagPass_append_of_not_mem {left : List Char} (plain : '<' ∉ left)
    (right : List Char) :
    scriptTagPass.apply (left ++ right) = left ++ scriptTagPass.apply right := by
  induction left with
  | nil => rfl
  | cons c left ih =>
      simp only [List.mem_cons, not_or] at plain
      have missed : scriptTag (c :: (left ++ right)) = none := by
        unfold scriptTag
        split
        · rename_i same
          exact absurd (List.cons.inj same).1.symm plain.1
        · rfl
      rw [List.cons_append, Pass.apply, scriptTagPass, replaceAll_of_none missed]
      exact congrArg (c :: ·) (ih plain.2)

/-- A `<` parts the text. -/
theorem scriptTagPass_append_angle (left rest : List Char) :
    scriptTagPass.apply (left ++ '<' :: rest) =
      scriptTagPass.apply left ++ scriptTagPass.apply ('<' :: rest) := by
  refine replaceAll_induction scriptTag defeatScriptTag
    (motive := fun left out =>
      scriptTagPass.apply (left ++ '<' :: rest) = out ++ scriptTagPass.apply ('<' :: rest))
    rfl ?_ ?_ left
  · intro c left missed ih
    have missed' : scriptTag (c :: (left ++ '<' :: rest)) = none :=
      scriptTag_append_of_none (List.cons_ne_nil c left) missed
    rw [List.cons_append, Pass.apply, scriptTagPass, replaceAll_of_none missed', List.cons_append]
    exact congrArg (c :: ·) ih
  · intro c left m found ih
    have found' := scriptTag_append found ('<' :: rest)
    rw [List.cons_append] at found' ⊢
    rw [Pass.apply, scriptTagPass, replaceAll_of_some found',
      List.drop_append_of_le_length (length_of_scriptTag found), List.append_assoc]
    exact congrArg (defeatScriptTag m ++ ·) ih

/-- What a tag has been turned into starts with `<` and is copied. -/
theorem scriptTagPass_broken {text : List Char} {m : Match} (found : scriptTag text = some m) :
    ∃ tail, defeatScriptTag m = '<' :: tail ∧ ∀ right,
      scriptTagPass.apply ('<' :: (tail ++ right)) = '<' :: tail ++ scriptTagPass.apply right := by
  obtain ⟨slash, s, name, -, isSlash, -, -, plain, rfl⟩ := scriptTag_eq_some found
  obtain ⟨digits, noAngle, -, written⟩ := defeatScriptTag_eq slash s name
  refine ⟨slash ++ '\\' :: (digits ++ name), written, fun right => ?_⟩
  have missed : scriptTag ('<' :: (slash ++ '\\' :: (digits ++ name) ++ right)) = none := by
    by_contra found
    obtain ⟨n, c, opener, -⟩ := scriptTag_isSome_iff.1 (Option.isSome_iff_ne_none.2 found)
    rw [List.append_assoc, List.cons_append, openerLength?_broken isSlash] at opener
    cases opener
  have copied : '<' ∉ slash ++ '\\' :: (digits ++ name) := by
    rcases isSlash with rfl | rfl <;> simp [noAngle, plain]
  rw [Pass.apply, scriptTagPass, replaceAll_of_none missed, List.cons_append]
  exact congrArg ('<' :: ·) (scriptTagPass_append_of_not_mem copied right)

/-- A tag may be broken before the pass meets it. -/
theorem scriptTagPass_defeated {c : Char} {rest : List Char} {m : Match}
    (found : scriptTag (c :: rest) = some m) (left right : List Char) :
    scriptTagPass.apply (left ++ (defeatScriptTag m ++ rest.drop (m.whole.length - 1)) ++ right) =
      scriptTagPass.apply (left ++ c :: rest ++ right) := by
  have meets : scriptTagPass.apply (c :: (rest ++ right)) =
      defeatScriptTag m ++ scriptTagPass.apply (rest.drop (m.whole.length - 1) ++ right) := by
    rw [← List.drop_append_of_le_length (length_of_scriptTag found)]
    exact replaceAll_of_some (scriptTag_append found right)
  obtain rfl : c = '<' := by
    obtain ⟨slash, s, name, after, -, joined, -⟩ := scriptTag_eq_some found
    exact (List.cons.inj joined).1
  obtain ⟨tail, written, copied⟩ := scriptTagPass_broken found
  rw [written] at meets ⊢
  generalize rest.drop (m.whole.length - 1) = behind at meets ⊢
  calc scriptTagPass.apply (left ++ ('<' :: tail ++ behind) ++ right)
      = scriptTagPass.apply (left ++ '<' :: (tail ++ (behind ++ right))) := by simp
    _ = scriptTagPass.apply left ++ ('<' :: tail ++ scriptTagPass.apply (behind ++ right)) := by
        rw [scriptTagPass_append_angle, copied]
    _ = scriptTagPass.apply (left ++ '<' :: (rest ++ right)) := by
        rw [scriptTagPass_append_angle, meets]
    _ = scriptTagPass.apply (left ++ '<' :: rest ++ right) := by simp

/-- **Breaking the tags of a part first** changes nothing, wherever the part stands. -/
theorem scriptTagPass_around (left middle right : List Char) :
    scriptTagPass.apply (left ++ scriptTagPass.apply middle ++ right) =
      scriptTagPass.apply (left ++ middle ++ right) := by
  refine replaceAll_induction scriptTag defeatScriptTag
    (motive := fun middle out => ∀ left, scriptTagPass.apply (left ++ out ++ right) =
      scriptTagPass.apply (left ++ middle ++ right)) ?_ ?_ ?_ middle left
  · exact fun _ => rfl
  · intro c rest _ ih left
    simpa using ih (left ++ [c])
  · intro c rest m found ih left
    rw [← scriptTagPass_defeated found left right]
    simpa using ih (left ++ defeatScriptTag m)

/-! ## The whole pipeline -/

theorem forall_mem_sanitize_clean (text : List Char) :
    ∀ c ∈ sanitize text, isAscii c = true ∧ c ≠ '\x00' :=
  forall_mem_scriptTagPass (by decide) (by decide) (forall_mem_escaped text)

/-- Sanitizing keeps a seam apart. -/
theorem apart_sanitize {left right : List Char} (apart : Apart IsInert left right) :
    Apart IsInert (sanitize left) right := by
  refine apart.imp_left fun last c ends => ?_
  cases left with
  | nil => cases ends
  | cons d left =>
      have same := List.getLast?_eq_some_getLast (List.cons_ne_nil d left)
      have inert := last _ same
      rw [getLast?_sanitize inert.1 inert.2.1 same] at ends
      cases ends
      exact inert

/-- **Sanitizing a part first** changes nothing, if it is kept apart from what surrounds it. -/
theorem sanitize_around (left : List Char) {middle right : List Char}
    (before : ∀ c ∈ left.getLast?, IsInert c) (after : Apart IsInert middle right) :
    sanitize (left ++ sanitize middle ++ right) = sanitize (left ++ middle ++ right) := by
  have parts {part : List Char} (apart : Apart IsInert part right) :
      escaped (left ++ part ++ right) = escaped left ++ escaped part ++ escaped right := by
    rw [List.append_assoc, escaped_append (.inl before), escaped_append apart, List.append_assoc]
  rw [sanitize_eq_scriptTagPass, parts (apart_sanitize after),
    escaped_eq_self (forall_mem_sanitize_clean middle), sanitize_eq_scriptTagPass middle,
    scriptTagPass_around, ← parts after, ← sanitize_eq_scriptTagPass]

/-- Sanitizing once more changes nothing. -/
theorem sanitize_sanitize (text : List Char) : sanitize (sanitize text) = sanitize text := by
  have alone : Apart IsInert text [] := .inr (by simp)
  simpa using sanitize_around [] (by simp) alone

/-- Without characters beyond U+FFFF the name of a variable is sanitized like any text. -/
theorem sanitizeName_eq_sanitize {name : List Char} (basic : ∀ c ∈ name, isAstral c = false) :
    sanitizeName name = sanitize name := by
  have prepared : replaceAll (singleChar isAstral) escapeCodePoint name = name := by
    refine replaceAll_eq_self fun suffix inName => ?_
    cases suffix with
    | nil => rfl
    | cons c rest => simp [singleChar, basic c (inName.subset (by simp))]
  rw [sanitizeName, prepared]

end EcmaScribe.Text
