/-
# EcmaScribe.Proofs.Text.Replace -- a replacement scan, one match at a time

`replaceAll` hands every replacement over as a template, and goes by places in the text: it keeps
the end of the last match and cuts out what lies between.  Neither is seen in the outcome.  A
template written `literally` expands to the text itself (`expand_literally`).  What has been
written, together with the text since the last match, is what a scan would have written that
copies a text character by character and replaces a match where it meets one (`scanFrom`); each
place in the text keeps this so (`soFar_foldl_replace`).

So `replaceAll` obeys one equation for a match and one for a copied character.
`replaceAll_induction` is the induction along that scan; what the passes of the sanitizer do to a
text is proved with it.
-/
import EcmaScribe.Text.Replace

namespace EcmaScribe.Text

set_option autoImplicit false

variable {pattern : Pattern} {replacement : Match → List Char}

/-! ## Templates -/

/-- A text written literally is copied by the expansion, whatever was matched. -/
theorem expand_literally (m : Match) (text : List Char) : expand m (literally text) = text := by
  induction text with
  | nil => simp [literally, expand]
  | cons c rest ih =>
      have unfolded : literally (c :: rest) =
          (if c = '$' then ['$', '$'] else [c]) ++ literally rest := rfl
      by_cases dollar : c = '$'
      · subst dollar
        rw [unfolded, if_pos rfl, List.cons_append, List.cons_append, List.nil_append, expand, ih]
      · rw [unfolded, if_neg dollar, List.cons_append, List.nil_append, expand, ih]
        all_goals intros; simp_all

/-! ## Matches in a row -/

/-- The scan that copies characters and writes replacements.  The first `skip` characters of the
text belong to a match that has been replaced already. -/
def scanFrom (pattern : Pattern) (replacement : Match → List Char) : Nat → List Char → List Char
  | _, [] => []
  | skip + 1, _ :: rest => scanFrom pattern replacement skip rest
  | 0, c :: rest =>
      match pattern (c :: rest) with
      | some m => replacement m ++ scanFrom pattern replacement (m.whole.length - 1) rest
      | none => c :: scanFrom pattern replacement 0 rest

namespace Rewriting

variable {front rest : List Char} {r : Rewriting}

/-- What has been written and what is due of the text up to a place. -/
def soFar (front : List Char) (r : Rewriting) : List Char :=
  r.written.getD [] ++ front.drop r.last

/-- Inside a match nothing of the text is due. -/
theorem soFar_of_le (inside : front.length ≤ r.last) : r.soFar front = r.written.getD [] := by
  rw [soFar, List.drop_eq_nil_of_le inside, List.append_nil]

/-- Behind the last match each character of the text is due. -/
theorem soFar_concat (behind : r.last ≤ front.length) (c : Char) :
    r.soFar (front ++ [c]) = r.soFar front ++ [c] := by
  rw [soFar, List.drop_append_of_le_length behind, ← List.append_assoc, soFar]

/-- At a match what is due is written, and the replacement as it was computed. -/
theorem written_replace {m : MatchAt} (starts : m.start = front.length) :
    (r.replace replacement (front ++ rest) m).written.getD [] =
      r.soFar front ++ replacement m.found := by
  simp [replace, starts, soFar, expand_literally]

end Rewriting

/-- The rewriting does at each place of the text what the scan does there.  Before it stands
`front`; either the last match ends there or earlier, or there are characters of it to skip. -/
theorem soFar_foldl_replace (front rest : List Char) (skip : Nat) (r : Rewriting)
    (place : skip = 0 ∧ r.last ≤ front.length ∨ r.last = front.length + skip) :
    ((matchesFrom pattern front.length skip rest).foldl
      (Rewriting.replace replacement (front ++ rest)) r).soFar (front ++ rest) =
      r.soFar front ++ scanFrom pattern replacement skip rest := by
  induction rest generalizing front skip r with
  | nil => simp [matchesFrom, scanFrom]
  | cons c rest ih =>
      have further := ih (front ++ [c])
      rw [List.append_assoc, List.singleton_append, List.length_append, List.length_singleton]
        at further
      cases skip with
      | succ skip =>
          have inside : r.last = front.length + 1 + skip := by omega
          rw [matchesFrom, further skip r (.inr inside), scanFrom,
            Rewriting.soFar_of_le (by simp; omega), Rewriting.soFar_of_le (by omega)]
      | zero =>
          have behind : r.last ≤ front.length := by omega
          cases found : pattern (c :: rest) with
          | none =>
              simp only [matchesFrom, scanFrom, found]
              rw [further 0 r (.inl ⟨rfl, by omega⟩), Rewriting.soFar_concat behind,
                List.append_assoc, List.singleton_append]
          | some m =>
              simp only [matchesFrom, scanFrom, found, List.foldl_cons]
              rw [further _ _ (.inr rfl), Rewriting.soFar_of_le (by simp [Rewriting.replace]),
                Rewriting.written_replace rfl, List.append_assoc]

theorem written_foldl_replace {text : List Char} (ms : List MatchAt) (r : Rewriting) :
    (ms.foldl (Rewriting.replace replacement text) r).written = none ↔
      ms = [] ∧ r.written = none := by
  induction ms generalizing r with
  | nil => simp
  | cons m ms ih => simp [ih, Rewriting.replace]

theorem matchesFrom_eq_nil_iff {text : List Char} (position : Nat) :
    matchesFrom pattern position 0 text = [] ↔ occurs pattern text = false := by
  induction text generalizing position with
  | nil => simp [matchesFrom, occurs]
  | cons c rest ih =>
      cases found : pattern (c :: rest) with
      | none => simp [matchesFrom, occurs, found, ih]
      | some m => simp [matchesFrom, occurs, found]

/-- A text is handed back exactly if nothing matches in it. -/
theorem replaced?_eq_none_iff {text : List Char} :
    replaced? pattern replacement text = none ↔ occurs pattern text = false := by
  rw [replaced?, Rewriting.finish, Option.map_eq_none_iff, written_foldl_replace,
    matchesFrom_eq_nil_iff]
  exact and_iff_left rfl

/-- The outcome is that of the scan. -/
theorem replaceAll_eq_scanFrom (text : List Char) :
    replaceAll pattern replacement text = scanFrom pattern replacement 0 text := by
  have scanned : ((matchesFrom pattern 0 0 text).foldl (Rewriting.replace replacement text)
      .start).soFar text = scanFrom pattern replacement 0 text :=
    soFar_foldl_replace [] text 0 .start (.inl ⟨rfl, Nat.le_refl _⟩)
  rw [← scanned, replaceAll]
  cases outcome : replaced? pattern replacement text with
  | none =>
      rw [replaced?, Rewriting.finish, Option.map_eq_none_iff, written_foldl_replace] at outcome
      rw [outcome.1]
      rfl
  | some rewritten =>
      rw [replaced?, Rewriting.finish, Option.map_eq_some_iff] at outcome
      obtain ⟨written, begun, rfl⟩ := outcome
      rw [Rewriting.soFar, begun]
      rfl

theorem scanFrom_eq_drop (skip : Nat) (text : List Char) :
    scanFrom pattern replacement skip text = scanFrom pattern replacement 0 (text.drop skip) := by
  induction skip generalizing text with
  | zero => rfl
  | succ skip ih =>
      cases text with
      | nil => simp [scanFrom]
      | cons c rest => rw [scanFrom, ih, List.drop_succ_cons]

@[simp] theorem replaceAll_nil : replaceAll pattern replacement [] = [] := rfl

theorem replaceAll_of_none {c : Char} {rest : List Char} (missed : pattern (c :: rest) = none) :
    replaceAll pattern replacement (c :: rest) = c :: replaceAll pattern replacement rest := by
  simp only [replaceAll_eq_scanFrom, scanFrom, missed]

theorem replaceAll_of_some {c : Char} {rest : List Char} {m : Match}
    (found : pattern (c :: rest) = some m) :
    replaceAll pattern replacement (c :: rest) =
      replacement m ++ replaceAll pattern replacement (rest.drop (m.whole.length - 1)) := by
  simp only [replaceAll_eq_scanFrom, scanFrom, found]
  rw [scanFrom_eq_drop]

/-- Text in which nothing matches is copied. -/
theorem replaceAll_eq_self {text : List Char}
    (never : ∀ suffix, suffix <:+ text → pattern suffix = none) :
    replaceAll pattern replacement text = text := by
  induction text with
  | nil => rfl
  | cons c rest ih =>
      rw [replaceAll_of_none (never _ (List.suffix_refl _)),
        ih fun suffix inRest => never suffix (inRest.trans (List.suffix_cons c rest))]

/-- Induction along the scan: `motive` relates what is left of the text to what is written
for it. -/
theorem replaceAll_induction (pattern : Pattern) (replacement : Match → List Char)
    {motive : List Char → List Char → Prop} (nil : motive [] [])
    (copied : ∀ c rest, pattern (c :: rest) = none →
      motive rest (replaceAll pattern replacement rest) →
      motive (c :: rest) (c :: replaceAll pattern replacement rest))
    (matched : ∀ c rest m, pattern (c :: rest) = some m →
      motive (rest.drop (m.whole.length - 1))
        (replaceAll pattern replacement (rest.drop (m.whole.length - 1))) →
      motive (c :: rest)
        (replacement m ++ replaceAll pattern replacement (rest.drop (m.whole.length - 1))))
    (text : List Char) : motive text (replaceAll pattern replacement text) := by
  induction hn : text.length using Nat.strongRecOn generalizing text with
  | ind n ih =>
      cases text with
      | nil => exact nil
      | cons c rest =>
          cases found : pattern (c :: rest) with
          | none =>
              rw [replaceAll_of_none found]
              exact copied c rest found (ih rest.length (by simp [← hn]) rest rfl)
          | some m =>
              rw [replaceAll_of_some found]
              refine matched c rest m found (ih _ ?_ _ rfl)
              simp only [← hn, List.length_drop, List.length_cons]
              omega

end EcmaScribe.Text
