/-
# EcmaScribe.Proofs.Text.ScriptTag -- where tag openers can stand

`openerLength?` looks at the front of a text.  Here it becomes a statement about the whole
text: `TagFree` says that no opener is followed by a terminator, `EndsInOpener` that the
text stops right after one, and `Straddles` that one starts in a text and ends in the text
written after it.

The scan for a seam looks at seven characters on the left and eight on the right, and it
skips over an opener once it is found.  `formsOpenerAfter_eq_true_iff` says that nothing is
lost by either: an opener has at most eight characters, and none of them but the first is
`<`.  `tagFree_append` then tells when two texts may be put side by side.
-/
import EcmaScribe.Proofs.Text.Character
import EcmaScribe.Text.ScriptTag
import Mathlib.Tactic.Common

namespace EcmaScribe.Text

set_option autoImplicit false

/-! ## Openers and prefixes -/

theorem length_le_of_startsWithWord {word text : List Char} (h : startsWithWord word text = true) :
    word.length ≤ text.length := by
  fun_induction startsWithWord word text with
  | case1 => simp
  | case2 => simp at h
  | case3 letter word c rest ih =>
      simp only [Bool.and_eq_true] at h
      simpa using ih h.2

/-- The word is looked for among the first characters only. -/
theorem startsWithWord_append {word left : List Char} (right : List Char)
    (fits : word.length ≤ left.length) :
    startsWithWord word (left ++ right) = startsWithWord word left := by
  induction word generalizing left with
  | nil => cases left <;> rfl
  | cons letter word ih =>
      cases left with
      | nil => simp at fits
      | cons c left =>
          simp only [List.cons_append, startsWithWord]
          rw [ih (by simpa using fits)]

/-- The slash that may stand between `<` and the name of a tag. -/
def IsSlash (slash : List Char) : Prop := slash = [] ∨ slash = ['/']

theorem not_startsWithWord_slash (rest : List Char) :
    startsWithWord scriptWord ('/' :: rest) = false := rfl

theorem splitSlash_eq {slash rest : List Char} (isSlash : IsSlash slash)
    (word : startsWithWord scriptWord rest = true) : splitSlash (slash ++ rest) = (slash, rest) := by
  rcases isSlash with rfl | rfl
  · cases rest with
    | nil => rfl
    | cons c rest =>
        have : c ≠ '/' := by
          rintro rfl
          simp [not_startsWithWord_slash] at word
        simp only [List.nil_append]
        unfold splitSlash
        split <;> simp_all
  · rfl

theorem splitSlash_spec (text : List Char) :
    IsSlash (splitSlash text).1 ∧ (splitSlash text).1 ++ (splitSlash text).2 = text := by
  unfold splitSlash
  split
  · exact ⟨.inr rfl, rfl⟩
  · exact ⟨.inl rfl, rfl⟩

/-- An opener is `<`, a slash or none, and the word; its length counts all three. -/
theorem openerLength?_eq_some_iff {text : List Char} {n : Nat} :
    openerLength? text = some n ↔
      ∃ slash rest, IsSlash slash ∧ text = '<' :: (slash ++ rest) ∧
        startsWithWord scriptWord rest = true ∧ n = 7 + slash.length := by
  constructor
  · intro h
    unfold openerLength? at h
    split at h
    · rename_i rest
      simp only at h
      split at h
      · rename_i word
        obtain ⟨isSlash, joined⟩ := splitSlash_spec rest
        exact ⟨_, _, isSlash, by rw [joined], word, (Option.some.inj h).symm⟩
      · cases h
    · cases h
  · rintro ⟨slash, rest, isSlash, rfl, word, rfl⟩
    simp [openerLength?, splitSlash_eq isSlash word, word]

theorem length_le_of_openerLength? {text : List Char} {n : Nat} (h : openerLength? text = some n) :
    7 ≤ n ∧ n ≤ 8 ∧ n ≤ text.length := by
  obtain ⟨slash, rest, isSlash, rfl, word, rfl⟩ := openerLength?_eq_some_iff.1 h
  have long : 6 ≤ rest.length := length_le_of_startsWithWord word
  have short : slash.length ≤ 1 := by rcases isSlash with rfl | rfl <;> simp
  simp only [List.length_cons, List.length_append]
  omega

theorem openerLength?_append {left : List Char} {n : Nat} (right : List Char)
    (h : openerLength? left = some n) : openerLength? (left ++ right) = some n := by
  obtain ⟨slash, rest, isSlash, rfl, word, rfl⟩ := openerLength?_eq_some_iff.1 h
  refine openerLength?_eq_some_iff.2 ⟨slash, rest ++ right, isSlash, by simp, ?_, rfl⟩
  rw [startsWithWord_append right (length_le_of_startsWithWord word), word]

/-- An opener is found by its own characters. -/
theorem openerLength?_of_append {left right : List Char} {n : Nat}
    (h : openerLength? (left ++ right) = some n) (fits : n ≤ left.length) :
    openerLength? left = some n := by
  obtain ⟨slash, rest, isSlash, joined, word, rfl⟩ := openerLength?_eq_some_iff.1 h
  have length := congrArg List.length joined
  simp only [List.length_append, List.length_cons] at length
  have front : '<' :: slash <+: left := by
    have opening : '<' :: slash <+: left ++ right := ⟨rest, by simpa using joined.symm⟩
    refine List.prefix_of_prefix_length_le opening ⟨right, rfl⟩ ?_
    simp only [List.length_cons]
    omega
  obtain ⟨tail, rfl⟩ := front
  have split : tail ++ right = rest := by simpa using joined
  subst split
  simp only [List.length_append, List.length_cons] at fits
  refine openerLength?_eq_some_iff.2 ⟨slash, tail, isSlash, by simp, ?_, rfl⟩
  rwa [startsWithWord_append right (by simp [scriptWord]; omega)] at word

/-- Every character of a word that is found is a letter of it. -/
theorem isLetter_of_startsWithWord {word text : List Char} (h : startsWithWord word text = true)
    (k : Nat) (inside : k < word.length) {c : Char} (found : text[k]? = some c) :
    ∃ letter ∈ word, isLetter c letter = true := by
  induction word generalizing text k with
  | nil => simp at inside
  | cons letter word ih =>
      cases text with
      | nil => simp at found
      | cons d text =>
          simp only [startsWithWord, Bool.and_eq_true] at h
          cases k with
          | zero =>
              simp only [List.getElem?_cons_zero, Option.some.injEq] at found
              exact ⟨letter, by simp, found ▸ h.1⟩
          | succ k =>
              obtain ⟨l, member, same⟩ := ih h.2 k (by simpa using inside) (by simpa using found)
              exact ⟨l, by simp [member], same⟩

theorem getElem?_ne_of_startsWithWord {word text : List Char} {c : Char}
    (h : startsWithWord word text = true) (foreign : ∀ letter ∈ word, isLetter c letter = false)
    (k : Nat) (inside : k < word.length) : text[k]? ≠ some c := by
  intro found
  obtain ⟨letter, member, same⟩ := isLetter_of_startsWithWord h k inside found
  rw [foreign letter member] at same
  cases same

/-- After its first character an opener holds no `<`, so openers never overlap. -/
theorem getElem?_ne_of_openerLength? {c : Char} {rest : List Char} {n : Nat}
    (h : openerLength? (c :: rest) = some n) (k : Nat) (inside : k + 1 < n) :
    rest[k]? ≠ some '<' := by
  obtain ⟨slash, tail, isSlash, joined, word, rfl⟩ := openerLength?_eq_some_iff.1 h
  have letters := getElem?_ne_of_startsWithWord (c := '<') word (by decide)
  simp only [List.cons.injEq] at joined
  rw [joined.2]
  rcases isSlash with rfl | rfl
  · exact letters k (by simp [scriptWord] at inside ⊢; omega)
  · cases k with
    | zero => simp
    | succ k => simpa using letters k (by simp [scriptWord] at inside ⊢; omega)

/-! ## Openers in a text -/

/-- No opener of the text is terminated. -/
def TagFree (text : List Char) : Prop :=
  ∀ i n c, openerLength? (text.drop i) = some n → text[i + n]? = some c → endsTagName c = false

/-- The text stops right after an opener. -/
def EndsInOpener (text : List Char) : Prop :=
  ∃ i n, openerLength? (text.drop i) = some n ∧ i + n = text.length

/-- An opener starts in the first text and ends in the second. -/
def Straddles (left right : List Char) : Prop :=
  ∃ i n, openerLength? ((left ++ right).drop i) = some n ∧ i < left.length ∧ left.length < i + n

theorem tagFree_nil : TagFree [] := by
  intro i n c h
  simp [openerLength?] at h

/-- Where there is no `<`, there is no opener. -/
theorem openerLength?_eq_none {text : List Char} (plain : '<' ∉ text) (i : Nat) :
    openerLength? (text.drop i) = none := by
  cases h : openerLength? (text.drop i) with
  | none => rfl
  | some n =>
      obtain ⟨slash, rest, -, joined, -⟩ := openerLength?_eq_some_iff.1 h
      have : '<' ∈ text.drop i := by rw [joined]; simp
      exact absurd (List.mem_of_mem_drop this) plain

theorem eq_of_isLetter_t {c : Char} (h : isLetter c 't' = true) : c = 't' ∨ c = 'T' := by
  have lower : c.toLower = 't' := by simpa [isLetter] using h
  unfold Char.toLower at lower
  split at lower
  · rename_i upper
    right
    have value := congrArg Char.toNat lower
    have bound : c.toNat ≤ 90 := UInt32.le_iff_toNat_le.1 upper.2
    simp at value
    exact Char.toNat_inj.1 (show c.toNat = 84 by omega)
  · exact .inl lower

/-- The last character of an opener is a `t` of either case. -/
theorem getLast?_of_endsInOpener {text : List Char} (h : EndsInOpener text) :
    text.getLast? = some 't' ∨ text.getLast? = some 'T' := by
  obtain ⟨i, n, opener, stop⟩ := h
  obtain ⟨slash, rest, isSlash, joined, word, rfl⟩ := openerLength?_eq_some_iff.1 opener
  have length : rest.length = 6 := by
    have := congrArg List.length joined
    simp only [List.length_drop, List.length_cons, List.length_append] at this
    omega
  match rest, length with
  | [s, c, r, i', p, t], _ =>
      have last : text.getLast? = some t := by
        rw [← List.take_append_drop i text, joined]
        simp [List.getLast?_append, List.getLast?_cons]
      simp only [startsWithWord, scriptWord, Bool.and_eq_true] at word
      rw [last]
      simpa using eq_of_isLetter_t word.2.2.2.2.2.1

/-! ## Terminated openers -/

/-- A pattern occurs when it matches some rest of the text. -/
theorem occurs_eq_true_iff {pattern : Pattern} (empty : pattern [] = none) {text : List Char} :
    occurs pattern text = true ↔ ∃ i, (pattern (text.drop i)).isSome = true := by
  induction text with
  | nil => simp [occurs, empty]
  | cons c rest ih =>
      simp only [occurs, Bool.or_eq_true, ih]
      constructor
      · rintro (h | ⟨i, h⟩)
        · exact ⟨0, h⟩
        · exact ⟨i + 1, h⟩
      · rintro ⟨i, h⟩
        cases i with
        | zero => exact .inl h
        | succ i => exact .inr ⟨i, h⟩

/-- The pattern of a tag matches `<`, a slash or none, the word and a terminator. -/
theorem scriptTag_eq_some_iff {text : List Char} {m : Match} :
    scriptTag text = some m ↔
      ∃ slash s tail c, IsSlash slash ∧ text = '<' :: (slash ++ s :: tail) ∧
        startsWithWord scriptWord (s :: tail) = true ∧ tail[5]? = some c ∧ endsTagName c = true ∧
        m = ⟨'<' :: slash ++ s :: tail.take 6, [slash, [s], tail.take 6]⟩ := by
  constructor
  · intro h
    unfold scriptTag at h
    split at h
    · rename_i rest
      obtain ⟨isSlash, joined⟩ := splitSlash_spec rest
      generalize splitSlash rest = parts at h isSlash joined
      obtain ⟨slash, name⟩ := parts
      simp only at h isSlash joined
      subst joined
      split at h
      · rename_i s tail
        split at h
        · rename_i terminator after dropped
          split at h
          · rename_i found
            simp only [Bool.and_eq_true] at found
            have place : tail[5]? = some terminator := by
              rw [← List.head?_drop, dropped]
              rfl
            exact ⟨slash, s, tail, terminator, isSlash, rfl, found.1, place, found.2,
              (Option.some.inj h).symm⟩
          · cases h
        · cases h
      · cases h
    · cases h
  · rintro ⟨slash, s, tail, c, isSlash, rfl, word, place, terminator, rfl⟩
    rw [← List.head?_drop] at place
    cases hd : tail.drop 5 with
    | nil => simp [hd] at place
    | cons d after =>
        have same : d = c := by simpa [hd] using place
        simp [scriptTag, splitSlash_eq isSlash word, hd, word, same, terminator]

/-- The pattern of a tag is an opener with a terminator after it. -/
theorem scriptTag_isSome_iff {text : List Char} :
    (scriptTag text).isSome = true ↔
      ∃ n c, openerLength? text = some n ∧ text[n]? = some c ∧ endsTagName c = true := by
  rw [Option.isSome_iff_exists]
  constructor
  · rintro ⟨m, found⟩
    obtain ⟨slash, s, tail, c, isSlash, rfl, word, place, terminator, -⟩ :=
      scriptTag_eq_some_iff.1 found
    refine ⟨7 + slash.length, c, openerLength?_eq_some_iff.2
      ⟨slash, s :: tail, isSlash, rfl, word, rfl⟩, ?_, terminator⟩
    rcases isSlash with rfl | rfl <;> exact place
  · rintro ⟨n, c, opener, place, terminator⟩
    obtain ⟨slash, rest, isSlash, rfl, word, rfl⟩ := openerLength?_eq_some_iff.1 opener
    match rest, length_le_of_startsWithWord word with
    | s :: tail, _ =>
        refine ⟨_, scriptTag_eq_some_iff.2
          ⟨slash, s, tail, c, isSlash, rfl, word, ?_, terminator, rfl⟩⟩
        rcases isSlash with rfl | rfl <;> simpa using place

theorem occurs_scriptTag_eq_false_iff {text : List Char} :
    occurs scriptTag text = false ↔ TagFree text := by
  rw [← Bool.not_eq_true, occurs_eq_true_iff rfl]
  simp only [scriptTag_isSome_iff, List.getElem?_drop, not_exists, not_and, TagFree,
    Bool.not_eq_true]

/-! ## Putting texts side by side -/

theorem drop_append_left {left right : List Char} {i : Nat} (inside : i ≤ left.length) :
    (left ++ right).drop i = left.drop i ++ right := by
  rw [List.drop_append, Nat.sub_eq_zero_of_le inside, List.drop_zero]

/-- Two texts without a tag spell none together if no opener crosses the seam and none that
ends at the seam is terminated there. -/
theorem tagFree_append {left right : List Char} (leftFree : TagFree left)
    (rightFree : TagFree right) (seam : ¬ Straddles left right)
    (edge : EndsInOpener left → ∀ c ∈ right.head?, endsTagName c = false) :
    TagFree (left ++ right) := by
  intro i n c opener place
  by_cases inside : i < left.length
  · have within : i + n ≤ left.length := by
      by_contra beyond
      exact seam ⟨i, n, opener, inside, by omega⟩
    rw [drop_append_left (by omega)] at opener
    have opener' := openerLength?_of_append opener (by rw [List.length_drop]; omega)
    by_cases atSeam : i + n = left.length
    · rw [atSeam, List.getElem?_append_right (Nat.le_refl _), Nat.sub_self] at place
      exact edge ⟨i, n, opener', atSeam⟩ c (by simpa [List.head?_eq_getElem?] using place)
    · rw [List.getElem?_append_left (by omega)] at place
      exact leftFree i n c opener' place
  · rw [List.drop_append, List.drop_of_length_le (by omega), List.nil_append] at opener
    rw [List.getElem?_append_right (by omega)] at place
    exact rightFree (i - left.length) n c opener
      (by rw [← place]; congr 1; omega)

/-- An opener at the end of a text without crossing openers is one of its last part. -/
theorem endsInOpener_of_append {left right : List Char} (seam : ¬ Straddles left right)
    (nonempty : right ≠ []) (h : EndsInOpener (left ++ right)) : EndsInOpener right := by
  obtain ⟨i, n, opener, stop⟩ := h
  have positive := List.length_pos_iff.2 nonempty
  rw [List.length_append] at stop
  by_cases inside : i < left.length
  · exact absurd ⟨i, n, opener, inside, by omega⟩ seam
  · rw [List.drop_append, List.drop_of_length_le (by omega), List.nil_append] at opener
    exact ⟨i - left.length, n, opener, by omega⟩

/-- An opener at the end of the last part is one at the end of the text. -/
theorem endsInOpener_append (left : List Char) {right : List Char} (h : EndsInOpener right) :
    EndsInOpener (left ++ right) := by
  obtain ⟨i, n, opener, stop⟩ := h
  refine ⟨left.length + i, n, ?_, by rw [List.length_append]; omega⟩
  rwa [List.drop_append, List.drop_of_length_le (by omega), List.nil_append,
    Nat.add_sub_cancel_left]

/-- Openers that overlap are the same. -/
theorem eq_of_overlap {text : List Char} {i j n m : Nat}
    (first : openerLength? (text.drop i) = some n) (second : openerLength? (text.drop j) = some m)
    (order : i ≤ j) (inside : j < i + n) : i = j := by
  rcases Nat.eq_or_lt_of_le order with same | later
  · exact same
  obtain ⟨_, _, -, joined, -⟩ := openerLength?_eq_some_iff.1 second
  have angle : text[j]? = some '<' := by rw [← List.head?_drop, joined]; rfl
  obtain ⟨_, _, -, opening, -⟩ := openerLength?_eq_some_iff.1 first
  rw [opening] at first
  have foreign := getElem?_ne_of_openerLength? first (j - i - 1) (by omega)
  rw [← List.getElem?_cons_succ (a := '<'), ← opening, List.getElem?_drop] at foreign
  exact absurd (by rw [← angle]; congr 1; omega) foreign

/-- No opener goes over the end of a text that stops right after one. -/
theorem not_straddles_of_endsInOpener {left : List Char} (h : EndsInOpener left)
    (right : List Char) : ¬ Straddles left right := by
  obtain ⟨i, n, opener, stop⟩ := h
  rintro ⟨j, m, other, before, after⟩
  have longer := length_le_of_openerLength? opener
  have whole : openerLength? ((left ++ right).drop i) = some n := by
    rw [drop_append_left (by omega)]
    exact openerLength?_append right opener
  have same : i = j := by
    rcases Nat.le_total i j with order | order
    · exact eq_of_overlap whole other order (by omega)
    · exact (eq_of_overlap other whole order (by omega)).symm
  subst same
  rw [whole] at other
  cases other
  omega

/-- An opener with a terminator after it is a tag. -/
theorem not_tagFree_of_terminated {left right : List Char} {c : Char} (h : EndsInOpener left)
    (first : right.head? = some c) (terminator : endsTagName c = true) :
    ¬ TagFree (left ++ right) := by
  obtain ⟨i, n, opener, stop⟩ := h
  intro free
  have longer := length_le_of_openerLength? opener
  have closed : endsTagName c = false := by
    refine free i n c ?_ ?_
    · rw [drop_append_left (by omega)]
      exact openerLength?_append right opener
    · rw [stop, List.getElem?_append_right (Nat.le_refl _), Nat.sub_self, ← List.head?_eq_getElem?,
        first]
  rw [terminator] at closed
  cases closed

/-- What has no tag has none in its first part. -/
theorem TagFree.of_append {left right : List Char} (h : TagFree (left ++ right)) :
    TagFree left := by
  intro i n c opener place
  obtain ⟨inside, -⟩ := List.getElem?_eq_some_iff.1 place
  refine h i n c ?_ ?_
  · rw [drop_append_left (by omega)]
    exact openerLength?_append right opener
  · rwa [List.getElem?_append_left inside]

/-- A character that no opener holds keeps the texts on its two sides apart. -/
theorem not_straddles_of_head {left right : List Char} {c : Char} {rest : List Char}
    (cut : right = c :: rest) (slash : c ≠ '/')
    (foreign : ∀ letter ∈ scriptWord, isLetter c letter = false) : ¬ Straddles left right := by
  rintro ⟨i, n, opener, before, after⟩
  obtain ⟨sl, tail, isSlash, joined, word, rfl⟩ := openerLength?_eq_some_iff.1 opener
  -- the place of `c` inside the opener, counted from its first character
  have place : ('<' :: (sl ++ tail))[left.length - i]? = some c := by
    rw [← joined, List.getElem?_drop, cut, List.getElem?_append_right (by omega)]
    simp [show i + (left.length - i) - left.length = 0 by omega]
  have inWord := getElem?_ne_of_startsWithWord word foreign
  obtain ⟨k, hk⟩ : ∃ k, left.length - i = k + 1 := ⟨left.length - i - 1, by omega⟩
  rw [hk, List.getElem?_cons_succ] at place
  rcases isSlash with rfl | rfl
  · exact inWord k (by simp [scriptWord] at after ⊢; omega) (by simpa using place)
  · cases k with
    | zero => exact slash (by simpa using place.symm)
    | succ k => exact inWord k (by simp [scriptWord] at after ⊢; omega) (by simpa using place)

/-! ## The scan for a seam -/

/-- Every opener that the scan reports is one. -/
theorem opener_of_mem_openersFrom {text : List Char} {position skip start stop : Nat}
    (h : (start, stop) ∈ openersFrom position skip text) :
    ∃ i n, openerLength? (text.drop i) = some n ∧ start = position + i ∧ stop = start + n := by
  fun_induction openersFrom position skip text with
  | case1 => simp at h
  | case2 position skip c rest ih =>
      obtain ⟨i, n, opener, rfl, rfl⟩ := ih h
      exact ⟨i + 1, n, opener, by omega, rfl⟩
  | case3 position c rest length found ih =>
      rcases List.mem_cons.1 h with same | later
      · cases same
        exact ⟨0, length, found, rfl, rfl⟩
      · obtain ⟨i, n, opener, rfl, rfl⟩ := ih later
        exact ⟨i + 1, n, opener, by omega, rfl⟩
  | case4 position c rest missed ih =>
      obtain ⟨i, n, opener, rfl, rfl⟩ := ih h
      exact ⟨i + 1, n, opener, by omega, rfl⟩

/-- The scan reports every opener.  What it skips is the inside of an opener, where none
starts. -/
theorem mem_openersFrom {text : List Char} (position skip : Nat)
    (skipped : ∀ k < skip, text[k]? ≠ some '<') {i n : Nat}
    (opener : openerLength? (text.drop i) = some n) :
    (position + i, position + i + n) ∈ openersFrom position skip text := by
  fun_induction openersFrom position skip text generalizing i with
  | case1 => simp [openerLength?] at opener
  | case2 position skip c rest ih =>
      cases i with
      | zero =>
          obtain ⟨_, _, -, joined, -⟩ := openerLength?_eq_some_iff.1 opener
          have := skipped 0 (by omega)
          simp_all
      | succ i =>
          have := ih (fun k hk => by simpa using skipped (k + 1) (by omega)) opener
          rwa [show position + (i + 1) = position + 1 + i by omega]
  | case3 position c rest length found ih =>
      cases i with
      | zero =>
          rw [List.drop_zero, found] at opener
          cases opener
          exact List.mem_cons_self
      | succ i =>
          have := ih (fun k hk => getElem?_ne_of_openerLength? found k (by omega)) opener
          rw [show position + (i + 1) = position + 1 + i by omega]
          exact List.mem_cons_of_mem _ this
  | case4 position c rest missed ih =>
      cases i with
      | zero =>
          rw [List.drop_zero, missed] at opener
          cases opener
      | succ i =>
          have := ih (by simp) opener
          rwa [show position + (i + 1) = position + 1 + i by omega]

theorem straddles_eq_true_iff {left right : List Char} :
    straddles left right = true ↔ Straddles left right := by
  simp only [straddles, List.any_eq_true, Prod.exists, Bool.and_eq_true, decide_eq_true_eq]
  constructor
  · rintro ⟨start, stop, member, before, after⟩
    obtain ⟨i, n, opener, rfl, rfl⟩ := opener_of_mem_openersFrom member
    exact ⟨i, n, opener, by omega, by omega⟩
  · rintro ⟨i, n, opener, before, after⟩
    have := mem_openersFrom 0 0 (by simp) opener
    exact ⟨_, _, this, by omega, by omega⟩

/-- Straddling is decided next to the seam: what stands further away plays no part. -/
theorem straddles_append_iff (far near close away : List Char) (left : 7 ≤ near.length ∨ far = [])
    (right : 8 ≤ close.length ∨ away = []) :
    Straddles (far ++ near) (close ++ away) ↔ Straddles near close := by
  have regroup : far ++ near ++ (close ++ away) = far ++ (near ++ close ++ away) := by simp
  constructor
  · rintro ⟨i, n, opener, before, after⟩
    obtain ⟨-, short, fits⟩ := length_le_of_openerLength? opener
    simp only [List.length_append, List.length_drop] at before after fits
    have far_le : far.length ≤ i := by
      rcases left with long | rfl
      · omega
      · simp
    have away_zero : close.length < 8 → away.length = 0 := by
      rcases right with long | rfl
      · omega
      · simp
    rw [regroup, List.drop_append, List.drop_of_length_le far_le, List.nil_append,
      drop_append_left (by simp only [List.length_append]; omega)] at opener
    have opener' := openerLength?_of_append opener
      (by simp only [List.length_drop, List.length_append]; omega)
    exact ⟨i - far.length, n, opener', by omega, by omega⟩
  · rintro ⟨i, n, opener, before, after⟩
    refine ⟨far.length + i, n, ?_, by simp; omega, by simp; omega⟩
    rw [regroup, List.drop_append, List.drop_of_length_le (by omega), List.nil_append,
      Nat.add_sub_cancel_left, drop_append_left (by simp; omega)]
    exact openerLength?_append away opener

/-- **The windows suffice.**  Looking at seven characters before the seam and eight after it
finds exactly the openers that cross it. -/
theorem formsOpenerAfter_eq_true_iff {written right : List Char} :
    formsOpenerAfter written right = true ↔ Straddles written.reverse right := by
  rw [formsOpenerAfter, straddles_eq_true_iff]
  have split : written.reverse = (written.drop 7).reverse ++ (written.take 7).reverse := by
    rw [← List.reverse_append, List.take_append_drop]
  have near := straddles_append_iff (written.drop 7).reverse (written.take 7).reverse
    (right.take 8) (right.drop 8) (by
      simp only [List.length_reverse, List.length_take, List.reverse_eq_nil_iff,
        List.drop_eq_nil_iff]
      omega) (by
      simp only [List.length_take, List.drop_eq_nil_iff]
      omega)
  rw [← near, ← split, List.take_append_drop]

/-! ## Openers up to case -/

/-- The lower-case letter that a character folds to; the long s folds to `s`. -/
def folded (c : Char) : Char := if c = '\u017f' then 's' else c.toLower

/-- A text that is a tag opener up to case. -/
def IsOpener (text : List Char) : Prop :=
  text.map folded = '<' :: scriptWord ∨ text.map folded = '<' :: '/' :: scriptWord

instance (text : List Char) : Decidable (IsOpener text) := inferInstanceAs (Decidable (_ ∨ _))

theorem isLetter_iff {letter : Char} (plain : letter ≠ '\u017f') (c : Char) :
    isLetter c letter = true ↔ folded c = letter := by
  unfold isLetter folded
  by_cases long : c = '\u017f'
  · subst long
    have kept : '\u017f'.toLower = '\u017f' := by decide
    rw [if_pos rfl, kept]
    simp [plain.symm, eq_comm]
  · simp [long]

theorem startsWithWord_iff {word : List Char} (plain : '\u017f' ∉ word) (text : List Char) :
    startsWithWord word text = true ↔ ∃ read rest, text = read ++ rest ∧ read.map folded = word := by
  induction word generalizing text with
  | nil => simp [startsWithWord]
  | cons letter word ih =>
      obtain ⟨first, later⟩ := not_or.1 (List.mem_cons.not.1 plain)
      cases text with
      | nil => simp [startsWithWord]
      | cons c text =>
          rw [startsWithWord, Bool.and_eq_true, isLetter_iff (Ne.symm first), ih later]
          constructor
          · rintro ⟨same, read, rest, rfl, word⟩
            exact ⟨c :: read, rest, rfl, by rw [List.map_cons, same, word]⟩
          · rintro ⟨read, rest, split, word⟩
            cases read with
            | nil => cases word
            | cons d read =>
                obtain ⟨rfl, rfl⟩ := List.cons.inj split
                obtain ⟨same, word⟩ := List.cons.inj word
                exact ⟨same, read, rest, rfl, word⟩

/-- Only the characters themselves fold to `<` and to the slash. -/
theorem folded_eq_mark_iff {mark : Char} (isMark : mark = '<' ∨ mark = '/') (c : Char) :
    folded c = mark ↔ c = mark := by
  constructor
  · intro same
    unfold folded at same
    split at same
    · rcases isMark with rfl | rfl <;> cases same
    · unfold Char.toLower at same
      split at same
      · rename_i upper
        have value := congrArg Char.toNat same
        have least : 65 ≤ c.toNat := UInt32.le_iff_toNat_le.1 upper.1
        have greatest : c.toNat ≤ 90 := UInt32.le_iff_toNat_le.1 upper.2
        rcases isMark with rfl | rfl <;> simp at value <;> omega
      · exact same
  · rintro rfl
    rcases isMark with rfl | rfl <;> decide

/-- An opener is `<`, a slash or none, and the word. -/
theorem isOpener_iff {text : List Char} : IsOpener text ↔ ∃ slash word, IsSlash slash ∧
    text = '<' :: (slash ++ word) ∧ word.map folded = scriptWord := by
  have angle := folded_eq_mark_iff (.inl rfl)
  have stroke := folded_eq_mark_iff (.inr rfl)
  constructor
  · rintro (plain | closing)
    · obtain ⟨c, word, rfl, first, rest⟩ := List.map_eq_cons_iff.1 plain
      obtain rfl := (angle c).1 first
      exact ⟨[], word, .inl rfl, rfl, rest⟩
    · obtain ⟨c, tail, rfl, first, rest⟩ := List.map_eq_cons_iff.1 closing
      obtain ⟨d, letters, rfl, second, reads⟩ := List.map_eq_cons_iff.1 rest
      obtain rfl := (angle c).1 first
      obtain rfl := (stroke d).1 second
      exact ⟨['/'], letters, .inr rfl, rfl, reads⟩
  · rintro ⟨slash, word, isSlash, rfl, reads⟩
    rcases isSlash with rfl | rfl
    · exact .inl (by rw [List.nil_append, List.map_cons, reads, (angle '<').2 rfl])
    · exact .inr (by
        rw [List.singleton_append, List.map_cons, List.map_cons, reads, (angle '<').2 rfl,
          (stroke '/').2 rfl])

/-- An opener is found where a text starts with one. -/
theorem openerLength?_eq_some_iff_isOpener {text : List Char} {n : Nat} :
    openerLength? text = some n ↔ ∃ opener rest, text = opener ++ rest ∧ IsOpener opener ∧
      opener.length = n := by
  have word (text : List Char) := @startsWithWord_iff scriptWord (by decide) text
  rw [openerLength?_eq_some_iff]
  constructor
  · rintro ⟨slash, rest, isSlash, rfl, found, rfl⟩
    obtain ⟨read, rest, rfl, reads⟩ := (word rest).1 found
    have length : read.length = 6 := by rw [← List.length_map folded, reads]; rfl
    refine ⟨'<' :: (slash ++ read), rest, by simp, isOpener_iff.2 ⟨slash, read, isSlash, rfl, reads⟩,
      ?_⟩
    simp only [List.length_cons, List.length_append, length]
    omega
  · rintro ⟨opener, rest, rfl, isOpener, rfl⟩
    obtain ⟨slash, read, isSlash, rfl, reads⟩ := isOpener_iff.1 isOpener
    have length : read.length = 6 := by rw [← List.length_map folded, reads]; rfl
    refine ⟨slash, read ++ rest, isSlash, by simp, (word _).2 ⟨read, rest, rfl, reads⟩, ?_⟩
    simp only [List.length_cons, List.length_append, length]
    omega

/-- **The windowed scan is the full search.** -/
theorem formsOpenerAcross_iff {left right : List Char} : formsOpenerAcross left right = true ↔
    ∃ before opener after, left ++ right = before ++ opener ++ after ∧ IsOpener opener ∧
      before.length < left.length ∧ left.length < (before ++ opener).length := by
  rw [formsOpenerAcross, formsOpenerAfter_eq_true_iff, List.reverse_reverse]
  constructor
  · rintro ⟨i, n, found, starts, ends⟩
    obtain ⟨opener, rest, split, isOpener, rfl⟩ := openerLength?_eq_some_iff_isOpener.1 found
    have front : ((left ++ right).take i).length = i := by
      rw [List.length_take, List.length_append]
      omega
    refine ⟨(left ++ right).take i, opener, rest, ?_, isOpener, by omega, ?_⟩
    · rw [List.append_assoc, ← split, List.take_append_drop]
    · rwa [List.length_append, front]
  · rintro ⟨before, opener, after, split, isOpener, starts, ends⟩
    refine ⟨before.length, opener.length, ?_, starts, by rwa [List.length_append] at ends⟩
    rw [split, List.append_assoc, List.drop_left]
    exact openerLength?_eq_some_iff_isOpener.2 ⟨opener, after, rfl, isOpener, rfl⟩

/-- The window is as wide as an opener needs: seven of its characters before the seam, or after. -/
example : formsOpenerAcross "a</scrip".toList "T".toList = true ∧
    formsOpenerAcross "a<".toList "/\u017fcript>".toList = true ∧
    formsOpenerAcross "<script".toList ">".toList = false := by decide

end EcmaScribe.Text
