/-
# EcmaScribe.Proofs.Text.Respelled -- the passes, seen by a reader of escapes

A reader of a literal goes through its raw text from the left and takes a backslash together
with the character after it.  The passes of the sanitizer go by runs of backslashes and by whole
tags.  `Respelled` is what the two have in common: every character, escaped or not, is copied or
spelled as an escape, and an escaped line separator becomes an escaped line feed.

* Every pass respells the text it is given (`respelled_nulPass`, `respelled_nonAsciiPass`,
  `respelled_scriptTagPass`), so what respelling keeps is kept by the sanitizer
  (`sanitize_keeps`).
* A run of backslashes is taken in pairs, which is why the parity of its length decides; the
  letter that breaks a tag stands behind `<` or `/`, never behind a backslash.
-/
import EcmaScribe.Proofs.Text.Resanitize

namespace EcmaScribe.Text

set_option autoImplicit false

/-! ## Respelling -/

/-- The escape that a pass writes for a character. -/
inductive Spells : Char → List Char → Prop
  | nul : Spells '\x00' ['\\', 'x', '0', '0']
  | units {c : Char} (foreign : isAscii c = false) : Spells c (escapeUnits c)
  | small : Spells 's' ['\\', 'x', '7', '3']
  | capital : Spells 'S' ['\\', 'x', '5', '3']

/-- The second text comes from the first by respelling some characters. -/
inductive Respelled : List Char → List Char → Prop
  | nil : Respelled [] []
  /-- A backslash with nothing behind it. -/
  | dangling : Respelled ['\\'] ['\\']
  | copied {c : Char} {t u : List Char} (noBackslash : c ≠ '\\') (more : Respelled t u) :
      Respelled (c :: t) (c :: u)
  | escaped {c : Char} {t u : List Char} (more : Respelled t u) :
      Respelled ('\\' :: c :: t) ('\\' :: c :: u)
  | spelled {c : Char} {e t u : List Char} (spells : Spells c e) (more : Respelled t u) :
      Respelled (c :: t) (e ++ u)
  /-- The backslash of the escaped character is folded into its escape. -/
  | folded {c : Char} {e t u : List Char} (spells : Spells c e)
      (noSeparator : isLineSeparator c = false) (more : Respelled t u) :
      Respelled ('\\' :: c :: t) (e ++ u)
  /-- The line goes on behind another line end. -/
  | continued {c : Char} {t u : List Char} (separator : isLineSeparator c = true)
      (more : Respelled t u) : Respelled ('\\' :: c :: t) ('\\' :: '\n' :: u)

/-- A character that is never respelled and escapes nothing. -/
def IsFixed (c : Char) : Prop := isAscii c = true ∧ c ∉ ['\\', '\x00', 's', 'S']

instance (c : Char) : Decidable (IsFixed c) :=
  inferInstanceAs (Decidable (isAscii c = true ∧ c ∉ ['\\', '\x00', 's', 'S']))

/-- Every escape starts with a backslash. -/
theorem Spells.exists_cons {c : Char} {e : List Char} (h : Spells c e) :
    ∃ rest, e = '\\' :: rest := by
  cases h with
  | nul | small | capital => exact ⟨_, rfl⟩
  | units =>
      unfold escapeUnits utf16Units
      split <;> exact ⟨_, rfl⟩

theorem Spells.ne_backslash {c : Char} {e : List Char} (h : Spells c e) : c ≠ '\\' := by
  cases h with
  | nul | small | capital => decide
  | units foreign =>
      rintro rfl
      cases foreign

theorem Spells.not_isFixed {c : Char} {e : List Char} (h : Spells c e) : ¬ IsFixed c := by
  cases h with
  | nul | small | capital => decide
  | units foreign =>
      rintro ⟨ascii, -⟩
      rw [foreign] at ascii
      cases ascii

namespace Respelled

variable {c : Char} {t u : List Char}

/-- A character that is no backslash is copied or spelled. -/
theorem of_plain (noBackslash : c ≠ '\\') (h : Respelled (c :: t) u) :
    ∃ front v, u = front ++ v ∧ (front = [c] ∨ Spells c front) ∧ Respelled t v := by
  generalize whole : c :: t = text at h
  cases h with
  | nil => cases whole
  | dangling | escaped | folded | continued => exact absurd (List.cons.inj whole).1 noBackslash
  | copied _ more =>
      obtain ⟨rfl, rfl⟩ := List.cons.inj whole
      exact ⟨[c], _, rfl, .inl rfl, more⟩
  | spelled spells more =>
      obtain ⟨rfl, rfl⟩ := List.cons.inj whole
      exact ⟨_, _, rfl, .inr spells, more⟩

/-- A fixed character stands in its place. -/
theorem of_fixed (fixed : IsFixed c) (h : Respelled (c :: t) u) :
    ∃ v, u = c :: v ∧ Respelled t v := by
  have noBackslash : c ≠ '\\' := fun same => by simp [IsFixed, same] at fixed
  obtain ⟨front, v, rfl, rfl | spells, more⟩ := of_plain noBackslash h
  · exact ⟨v, rfl, more⟩
  · exact absurd fixed spells.not_isFixed

theorem of_fixed_append {front : List Char} (fixed : ∀ d ∈ front, IsFixed d)
    (h : Respelled (front ++ t) u) : ∃ v, u = front ++ v ∧ Respelled t v := by
  induction front generalizing u with
  | nil => exact ⟨u, rfl, h⟩
  | cons d front ih =>
      obtain ⟨first, others⟩ := List.forall_mem_cons.1 fixed
      obtain ⟨v, rfl, more⟩ := of_fixed first h
      obtain ⟨w, rfl, rest⟩ := ih others more
      exact ⟨w, rfl, rest⟩

/-- What starts with no backslash has been copied. -/
theorem of_cons (noBackslash : c ≠ '\\') (h : Respelled t (c :: u)) :
    ∃ s, t = c :: s ∧ Respelled s u := by
  generalize whole : c :: u = text at h
  cases h with
  | nil => cases whole
  | dangling | escaped | continued => exact absurd (List.cons.inj whole).1 noBackslash
  | copied _ more =>
      obtain ⟨rfl, rfl⟩ := List.cons.inj whole
      exact ⟨_, rfl, more⟩
  | spelled spells | folded spells =>
      obtain ⟨rest, rfl⟩ := spells.exists_cons
      exact absurd (List.cons.inj whole).1 noBackslash

/-- No text is lost. -/
theorem eq_nil (h : Respelled t []) : t = [] := by
  generalize none : ([] : List Char) = u at h
  cases h with
  | nil => rfl
  | dangling | copied | escaped | continued => cases none
  | spelled spells | folded spells =>
      obtain ⟨rest, rfl⟩ := spells.exists_cons
      cases none

theorem eq_singleton (noBackslash : c ≠ '\\') (h : Respelled t [c]) : t = [c] := by
  obtain ⟨rest, rfl, more⟩ := h.of_cons noBackslash
  rw [more.eq_nil]

/-- A fixed character stands in front of one text exactly if it stands in front of the other. -/
theorem head?_eq_iff (fixed : IsFixed c) (h : Respelled t u) :
    u.head? = some c ↔ t.head? = some c := by
  constructor <;> intro first
  · obtain ⟨rest, rfl⟩ := List.head?_eq_some_iff.1 first
    obtain ⟨s, rfl, -⟩ := of_cons (fun same => by simp [IsFixed, same] at fixed) h
    rfl
  · obtain ⟨rest, rfl⟩ := List.head?_eq_some_iff.1 first
    obtain ⟨v, rfl, -⟩ := of_fixed fixed h
    rfl

end Respelled

/-- Induction that takes a backslash together with the character after it. -/
theorem escape_induction {motive : List Char → Prop} (nil : motive []) (dangling : motive ['\\'])
    (escaped : ∀ c rest, motive rest → motive ('\\' :: c :: rest))
    (char : ∀ c rest, c ≠ '\\' → motive rest → motive (c :: rest)) :
    ∀ text, motive text
  | [] => nil
  | [c] => if h : c = '\\' then h ▸ dangling else char c [] h nil
  | c :: d :: rest =>
      if h : c = '\\' then h ▸ escaped d rest (escape_induction nil dangling escaped char rest)
      else char c (d :: rest) h (escape_induction nil dangling escaped char (d :: rest))

/-! ## The passes that look for a character -/

section AfterBackslashes

variable {isMember : Char → Bool} {replacement : Match → List Char}

/-- A run of backslashes and a character of the class are replaced at once. -/
theorem replaceAll_run (noBackslash : isMember '\\' = false) {run : List Char}
    (backslashes : ∀ b ∈ run, b = '\\') {c : Char} (member : isMember c = true)
    (rest : List Char) :
    replaceAll (afterBackslashes isMember) replacement (run ++ c :: rest) =
      replacement ⟨run ++ [c], [run, [c]]⟩ ++
        replaceAll (afterBackslashes isMember) replacement rest := by
  have found := afterBackslashes_run noBackslash backslashes member rest
  obtain ⟨d, tail, joined⟩ := List.exists_cons_of_ne_nil
    (show run ++ c :: rest ≠ [] by simp)
  rw [joined] at found ⊢
  rw [replaceAll_of_some found, drop_whole joined.symm]

/-- A character that is not of the class is copied, with a backslash before it or without. -/
theorem replaceAll_plain {c : Char} (plain : c ≠ '\\') (other : isMember c = false)
    (rest : List Char) :
    replaceAll (afterBackslashes isMember) replacement (c :: rest) =
      c :: replaceAll (afterBackslashes isMember) replacement rest :=
  replaceAll_of_none (by simp [afterBackslashes, plain, other])

theorem replaceAll_escaped {c : Char} (plain : c ≠ '\\') (other : isMember c = false)
    (rest : List Char) :
    replaceAll (afterBackslashes isMember) replacement ('\\' :: c :: rest) =
      '\\' :: c :: replaceAll (afterBackslashes isMember) replacement rest := by
  rw [replaceAll_of_none (by simp [afterBackslashes, plain, other]), replaceAll_plain plain other]

/-- A pair of backslashes is copied, if it is so in front of every longer run. -/
theorem replaceAll_pair (noBackslash : isMember '\\' = false)
    (pairs : ∀ run c, replacement ⟨'\\' :: '\\' :: run ++ [c], ['\\' :: '\\' :: run, [c]]⟩ =
      '\\' :: '\\' :: replacement ⟨run ++ [c], [run, [c]]⟩) (rest : List Char) :
    replaceAll (afterBackslashes isMember) replacement ('\\' :: '\\' :: rest) =
      '\\' :: '\\' :: replaceAll (afterBackslashes isMember) replacement rest := by
  cases found : afterBackslashes isMember rest with
  | some m =>
      obtain ⟨run, c, after, rfl, backslashes, member, -⟩ := afterBackslashes_eq_some found
      have longer : ∀ b ∈ '\\' :: '\\' :: run, b = '\\' := by simpa using backslashes
      rw [replaceAll_run noBackslash backslashes member, ← List.cons_append, ← List.cons_append,
        replaceAll_run noBackslash longer member, pairs]
      rfl
  | none =>
      have missed (more : List Char) (same : afterBackslashes isMember more = none) :
          afterBackslashes isMember ('\\' :: more) = none := by
        unfold afterBackslashes at same ⊢
        rw [List.dropWhile_cons_of_pos (by simp)]
        split at same
        · split at same
          · cases same
          · rename_i other
            simp [other]
        · rfl
      have first := missed rest found
      rw [replaceAll_of_none (missed _ first), replaceAll_of_none first]

/-- Such a pass respells. -/
theorem respelled_replaceAll (noBackslash : isMember '\\' = false)
    (pairs : ∀ run c, replacement ⟨'\\' :: '\\' :: run ++ [c], ['\\' :: '\\' :: run, [c]]⟩ =
      '\\' :: '\\' :: replacement ⟨run ++ [c], [run, [c]]⟩)
    (bare : ∀ c, isMember c = true → Spells c (replacement ⟨[c], [[], [c]]⟩))
    (behind : ∀ c, isMember c = true → ∀ t u, Respelled t u →
      Respelled ('\\' :: c :: t) (replacement ⟨['\\', c], [['\\'], [c]]⟩ ++ u))
    (text : List Char) :
    Respelled text (replaceAll (afterBackslashes isMember) replacement text) := by
  induction text using escape_induction with
  | nil => exact .nil
  | dangling =>
      rw [replaceAll_afterBackslashes_eq_self (by simpa using noBackslash)]
      exact .dangling
  | escaped c rest ih =>
      by_cases backslash : c = '\\'
      · subst backslash
        rw [replaceAll_pair noBackslash pairs]
        exact ih.escaped
      cases member : isMember c with
      | false =>
          rw [replaceAll_escaped backslash member]
          exact ih.escaped
      | true =>
          have one : ∀ b ∈ ['\\'], b = '\\' := fun _ => List.mem_singleton.1
          rw [show '\\' :: c :: rest = ['\\'] ++ c :: rest from rfl,
            replaceAll_run noBackslash one member]
          exact behind c member _ _ ih
  | char c rest plain ih =>
      cases member : isMember c with
      | false =>
          rw [replaceAll_plain plain member]
          exact ih.copied plain
      | true =>
          have none : ∀ b ∈ [], b = '\\' := nofun
          rw [← List.nil_append (c :: rest), replaceAll_run noBackslash none member]
          exact ih.spelled (bare c member)

end AfterBackslashes

/-- Whether a run of backslashes is kept whole depends on its parity. -/
theorem keptBackslashes_pair (run : List Char) :
    keptBackslashes ('\\' :: '\\' :: run) = '\\' :: '\\' :: keptBackslashes run := by
  have parity : (run.length + 1 + 1) % 2 = run.length % 2 := by omega
  cases run with
  | nil => rfl
  | cons b run =>
      simp only [keptBackslashes, List.length_cons, parity] at parity ⊢
      split <;> rfl

theorem respelled_nulPass (text : List Char) : Respelled text (nulPass.apply text) := by
  have isNulChar {c : Char} (member : isNul c = true) : c = '\x00' := by simpa [isNul] using member
  refine respelled_replaceAll rfl ?_ ?_ ?_ text
  · intro run c
    show keptBackslashes ('\\' :: '\\' :: run) ++ _ = _
    rw [keptBackslashes_pair]
    rfl
  · intro c member
    rw [isNulChar member]
    exact .nul
  · intro c member t u more
    rw [isNulChar member]
    exact more.folded .nul rfl

theorem respelled_nonAsciiPass (text : List Char) : Respelled text (nonAsciiPass.apply text) := by
  have foreign {c : Char} (member : (!isAscii c) = true) : isAscii c = false := by
    simpa using member
  show Respelled text (replaceAll _ escapeNonAscii text)
  refine respelled_replaceAll rfl ?_ ?_ ?_ text
  · intro run c
    have parity : ('\\' :: '\\' :: run).length % 2 = run.length % 2 := by
      simp only [List.length_cons]
      omega
    simp only [escapeNonAscii, Match.group, List.getD_cons_zero, List.getD_cons_succ, parity,
      keptBackslashes_pair]
    split <;> rfl
  · intro c member
    have written : escapeNonAscii ⟨[c], [[], [c]]⟩ = escapeUnits c := by
      simp [escapeNonAscii, Match.group, keptBackslashes]
    rw [written]
    exact .units (foreign member)
  · intro c member t u more
    cases separator : isLineSeparator c with
    | true =>
        have written : escapeNonAscii ⟨['\\', c], [['\\'], [c]]⟩ = ['\\', '\n'] := by
          simp [escapeNonAscii, Match.group, separator]
        rw [written]
        exact more.continued separator
    | false =>
        have written : escapeNonAscii ⟨['\\', c], [['\\'], [c]]⟩ = escapeUnits c := by
          simp [escapeNonAscii, Match.group, separator, keptBackslashes]
        rw [written]
        exact more.folded (.units (foreign member)) separator

/-! ## The pass that breaks tags -/

/-- Among ASCII characters only the letter itself folds to `s`. -/
theorem eq_of_isLetter_s {c : Char} (ascii : isAscii c = true) (h : isLetter c 's' = true) :
    c = 's' ∨ c = 'S' :=
  forall_ascii (P := fun c => isLetter c 's' = true → c = 's' ∨ c = 'S') (by decide) ascii h

/-- Behind a `<` the pass copies the text, but for the first letter of a tag. -/
theorem scriptTagPass_angle {rest : List Char} (ascii : ∀ c ∈ rest, isAscii c = true) :
    scriptTagPass.apply ('<' :: rest) = '<' :: scriptTagPass.apply rest ∨
      ∃ slash s tail e, IsSlash slash ∧ rest = slash ++ s :: tail ∧ Spells s e ∧
        scriptTagPass.apply ('<' :: rest) =
          '<' :: (slash ++ (e ++ scriptTagPass.apply tail)) := by
  cases found : scriptTag ('<' :: rest) with
  | none => exact .inl (replaceAll_of_none found)
  | some m =>
      right
      obtain ⟨slash, s, tail, c, isSlash, joined, word, place, -, rfl⟩ :=
        scriptTag_eq_some_iff.1 found
      obtain rfl := (List.cons.inj joined).2
      have long : 5 < tail.length := (List.getElem?_eq_some_iff.1 place).1
      have letter : s = 's' ∨ s = 'S' := by
        simp only [startsWithWord, scriptWord, Bool.and_eq_true] at word
        exact eq_of_isLetter_s (ascii s (by simp)) word.1
      obtain ⟨slash', s', name, after, -, again, -, plain, same⟩ := scriptTag_eq_some found
      obtain ⟨-, sameGroups⟩ := Match.mk.inj same
      obtain ⟨rfl, rfl, rfl⟩ : slash = slash' ∧ s = s' ∧ tail.take 6 = name := by
        simpa using sameGroups
      -- the name holds no `<`, so the pass copies it as the replacement does
      have copied : scriptTagPass.apply tail =
          tail.take 6 ++ scriptTagPass.apply (tail.drop 6) := by
        rw [← scriptTagPass_append_of_not_mem plain, List.take_append_drop]
      have behind : (slash ++ s :: tail).drop
          (('<' :: slash ++ s :: tail.take 6).length - 1) = tail.drop 6 := by
        simp [List.drop_append, List.drop_of_length_le,
          Nat.min_eq_left (by omega : 6 ≤ tail.length)]
      have written : scriptTagPass.apply ('<' :: (slash ++ s :: tail)) =
          defeatScriptTag ⟨'<' :: slash ++ s :: tail.take 6, [slash, [s], tail.take 6]⟩ ++
            scriptTagPass.apply (tail.drop 6) := by
        have first := @replaceAll_of_some _ defeatScriptTag _ _ _ found
        rwa [behind] at first
      rcases letter with rfl | rfl
      · refine ⟨slash, 's', tail, _, isSlash, rfl, .small, ?_⟩
        rw [written, copied]
        simp [defeatScriptTag, Match.group]
      · refine ⟨slash, 'S', tail, _, isSlash, rfl, .capital, ?_⟩
        rw [written, copied]
        simp [defeatScriptTag, Match.group]

/-- What stands behind a `<` is respelled, if it is so by itself. -/
theorem respelled_angle {rest : List Char} (ascii : ∀ c ∈ rest, isAscii c = true)
    (h : Respelled rest (scriptTagPass.apply rest)) :
    ∃ u, scriptTagPass.apply ('<' :: rest) = '<' :: u ∧ Respelled rest u := by
  rcases scriptTagPass_angle ascii with copied | ⟨slash, s, tail, e, isSlash, rfl, spells, written⟩
  · exact ⟨_, copied, h⟩
  · refine ⟨_, written, ?_⟩
    have angleFixed : IsFixed '<' := by decide
    have letter : '<' ≠ s := fun same => spells.not_isFixed (same ▸ angleFixed)
    have noAngle : '<' ∉ slash ++ [s] := by
      rcases isSlash with rfl | rfl <;> simp [letter]
    have slashFixed : ∀ d ∈ slash, IsFixed d := by
      rcases isSlash with rfl | rfl <;> decide
    have alone := scriptTagPass_append_of_not_mem noAngle tail
    rw [List.append_assoc, List.append_assoc, List.singleton_append, List.singleton_append] at alone
    rw [alone] at h
    obtain ⟨v, same, more⟩ := Respelled.of_fixed_append slashFixed h
    obtain rfl := List.append_cancel_left same
    obtain ⟨t, again, more⟩ := more.of_cons spells.ne_backslash
    obtain ⟨-, rfl⟩ := List.cons.inj again
    have broken : Respelled (s :: tail) (e ++ scriptTagPass.apply tail) := more.spelled spells
    rcases isSlash with rfl | rfl
    · exact broken
    · exact broken.copied (by decide)

theorem scriptTagPass_cons {c : Char} (plain : c ≠ '<') (rest : List Char) :
    scriptTagPass.apply (c :: rest) = c :: scriptTagPass.apply rest :=
  @scriptTagPass_append_of_not_mem [c] (by simpa using plain.symm) rest

theorem respelled_scriptTagPass {text : List Char} (ascii : ∀ c ∈ text, isAscii c = true) :
    Respelled text (scriptTagPass.apply text) := by
  induction text using escape_induction with
  | nil => exact .nil
  | dangling => exact .dangling
  | escaped c rest ih =>
      simp only [List.forall_mem_cons] at ascii
      have more := ih ascii.2.2
      rw [scriptTagPass_cons (by decide)]
      by_cases angle : c = '<'
      · subst angle
        obtain ⟨u, written, respelled⟩ := respelled_angle ascii.2.2 more
        rw [written]
        exact respelled.escaped
      · rw [scriptTagPass_cons angle]
        exact more.escaped
  | char c rest noBackslash ih =>
      simp only [List.forall_mem_cons] at ascii
      have more := ih ascii.2
      by_cases angle : c = '<'
      · subst angle
        obtain ⟨u, written, respelled⟩ := respelled_angle ascii.2 more
        rw [written]
        exact respelled.copied (by decide)
      · rw [scriptTagPass_cons angle]
        exact more.copied noBackslash

/-! ## The whole pipeline -/

/-- **What respelling keeps, the sanitizer keeps.** -/
theorem sanitize_keeps {P : List Char → Prop} (keeps : ∀ t u, Respelled t u → P t → P u)
    {text : List Char} (h : P text) : P (sanitize text) := by
  have first := keeps _ _ (respelled_nulPass text) h
  have second := keeps _ _ (respelled_nonAsciiPass _) first
  have ascii : ∀ c ∈ escaped text, isAscii c = true := fun c member =>
    (forall_mem_escaped text c member).1
  exact keeps _ _ (respelled_scriptTagPass ascii) second

end EcmaScribe.Text
