/-
# EcmaScribe.Proofs.Text.Backslashes -- characters looked for behind backslashes

Two passes of the sanitizer look for a character of a class and take the backslashes before it
along.  Backslashes are what such a pass sees across a seam: `replaceAll_append_of_apart` says
that it does two texts one after the other like each by itself, if a character at the seam is
neither of the class nor a backslash.
-/
import EcmaScribe.Proofs.Text.Replace
import EcmaScribe.Text.Sanitize
import Mathlib.Data.List.TakeWhile

namespace EcmaScribe.Text

set_option autoImplicit false

variable {isMember : Char → Bool} {replacement : Match → List Char}

/-! ## One match -/

/-- A match is a run of backslashes and a character of the class. -/
theorem afterBackslashes_eq_some {text : List Char} {m : Match}
    (h : afterBackslashes isMember text = some m) :
    ∃ run c rest, text = run ++ c :: rest ∧ (∀ b ∈ run, b = '\\') ∧ isMember c = true ∧
      m = ⟨run ++ [c], [run, [c]]⟩ := by
  unfold afterBackslashes at h
  split at h
  · rename_i c rest after
    simp only at h
    split at h
    · rename_i member
      refine ⟨_, c, rest, ?_, fun b hb => ?_, member, (Option.some.inj h).symm⟩
      · rw [← after, List.takeWhile_append_dropWhile]
      · simpa using List.mem_takeWhile_imp hb
    · cases h
  · cases h

/-- A run of backslashes and a character of the class match, unless backslashes are in the
class. -/
theorem afterBackslashes_run (noBackslash : isMember '\\' = false) {run : List Char}
    (backslashes : ∀ b ∈ run, b = '\\') {c : Char} (member : isMember c = true)
    (rest : List Char) :
    afterBackslashes isMember (run ++ c :: rest) = some ⟨run ++ [c], [run, [c]]⟩ := by
  have other : c ≠ '\\' := by
    rintro rfl
    simp [noBackslash] at member
  have passed : (run ++ c :: rest).dropWhile (· = '\\') = c :: rest := by
    rw [List.dropWhile_append_of_pos (by simpa using backslashes)]
    simp [other]
  have taken : (run ++ c :: rest).takeWhile (· = '\\') = run := by
    rw [List.takeWhile_append_of_pos (by simpa using backslashes)]
    simp [other]
  simp only [afterBackslashes, passed, taken, member, if_true]

/-- Behind a match the scan goes on with what follows the character. -/
theorem drop_whole {c d : Char} {rest run after : List Char}
    (joined : c :: rest = run ++ d :: after) :
    rest.drop ((run ++ [d]).length - 1) = after := by
  have : (c :: rest).drop (run.length + 1) = after := by
    rw [joined, List.drop_append, List.drop_of_length_le (by omega)]
    simp
  simpa using this

theorem not_isMember_of_afterBackslashes {c : Char} {rest : List Char}
    (h : afterBackslashes isMember (c :: rest) = none) (plain : c ≠ '\\') : isMember c = false := by
  simpa [afterBackslashes, plain] using h

theorem afterBackslashes_eq_none {text : List Char} (none : ∀ c ∈ text, isMember c = false) :
    afterBackslashes isMember text = Option.none := by
  cases found : afterBackslashes isMember text with
  | none => rfl
  | some m =>
      obtain ⟨run, c, rest, rfl, -, member, -⟩ := afterBackslashes_eq_some found
      rw [none c (by simp)] at member
      cases member

/-! ## The whole scan -/

/-- Text without characters of the class stays as it is. -/
theorem replaceAll_afterBackslashes_eq_self {text : List Char}
    (none : ∀ c ∈ text, isMember c = false) :
    replaceAll (afterBackslashes isMember) replacement text = text :=
  replaceAll_eq_self fun _ inText => afterBackslashes_eq_none fun c member =>
    none c (inText.subset member)

/-- The last character of a text stays at the end, unless it is of the class. -/
theorem getLast?_replaceAll_afterBackslashes {c : Char} (plain : isMember c = false)
    {text : List Char} (last : text.getLast? = some c) :
    (replaceAll (afterBackslashes isMember) replacement text).getLast? = some c := by
  refine replaceAll_induction _ _ (motive := fun text out =>
    text.getLast? = some c → out.getLast? = some c) ?_ ?_ ?_ text last
  · exact id
  · intro d rest _ ih last
    rw [List.getLast?_cons] at last ⊢
    cases rest with
    | nil => simpa using last
    | cons e rest =>
        rw [ih (by simpa [List.getLast?_cons] using last)]
        rfl
  · intro d rest m found ih last
    obtain ⟨run, e, after, joined, -, member, rfl⟩ := afterBackslashes_eq_some found
    rw [drop_whole joined] at ih ⊢
    rw [joined] at last
    have nonempty : after ≠ [] := by
      rintro rfl
      simp only [List.getLast?_append, List.getLast?_singleton, Option.some_or,
        Option.some.injEq] at last
      rw [last, plain] at member
      cases member
    have last' : after.getLast? = some c := by
      simpa [List.getLast?_append, List.getLast?_cons, List.getLast?_eq_some_getLast nonempty]
        using last
    rw [List.getLast?_append, ih last']
    rfl

/-! ## Seams -/

/-- A character with a property stands at the seam of two texts, or one of them is empty. -/
def Apart (P : Char → Prop) (left right : List Char) : Prop :=
  (∀ c ∈ left.getLast?, P c) ∨ ∀ c ∈ right.head?, P c

theorem Apart.imp {P Q : Char → Prop} {left right : List Char} (h : Apart P left right)
    (weaker : ∀ c, P c → Q c) : Apart Q left right := by
  rcases h with last | first
  · exact .inl fun c ends => weaker c (last c ends)
  · exact .inr fun c starts => weaker c (first c starts)

/-- A match over such a seam lies on its left. -/
theorem afterBackslashes_of_append {left right : List Char} {m : Match} (nonempty : left ≠ [])
    (apart : Apart (fun c => isMember c = false ∧ c ≠ '\\') left right)
    (found : afterBackslashes isMember (left ++ right) = some m) :
    ∃ run c rest, left = run ++ c :: rest ∧ (∀ b ∈ run, b = '\\') ∧ isMember c = true := by
  obtain ⟨run, c, after, joined, backslashes, member, rfl⟩ := afterBackslashes_eq_some found
  have crosses (more : List Char) (run_eq : run = left ++ more)
      (tail : right = more ++ c :: after) : False := by
    rcases apart with last | first
    · have ends := List.getLast?_eq_some_getLast nonempty
      exact (last _ ends).2 (backslashes _ (by simp [run_eq]))
    · cases more with
      | nil =>
          have foreign := (first c (by simp [tail])).1
          rw [member] at foreign
          cases foreign
      | cons e more => exact (first e (by simp [tail])).2 (backslashes e (by simp [run_eq]))
  rcases List.append_eq_append_iff.1 joined with ⟨more, run_eq, tail⟩ | ⟨more, left_eq, tail⟩
  · exact (crosses more run_eq tail).elim
  · cases more with
    | nil => exact (crosses [] (by simp [left_eq]) (by simpa using tail.symm)).elim
    | cons e more =>
        obtain ⟨rfl, rfl⟩ := List.cons.inj tail
        exact ⟨run, c, more, left_eq, backslashes, member⟩

/-- Each side of such a seam is done by itself. -/
theorem replaceAll_append_of_apart (noBackslash : isMember '\\' = false)
    {left right : List Char} (apart : Apart (fun c => isMember c = false ∧ c ≠ '\\') left right) :
    replaceAll (afterBackslashes isMember) replacement (left ++ right) =
      replaceAll (afterBackslashes isMember) replacement left ++
        replaceAll (afterBackslashes isMember) replacement right := by
  refine replaceAll_induction (afterBackslashes isMember) replacement
    (motive := fun left out => Apart (fun c => isMember c = false ∧ c ≠ '\\') left right →
      replaceAll (afterBackslashes isMember) replacement (left ++ right) =
        out ++ replaceAll (afterBackslashes isMember) replacement right) ?_ ?_ ?_ left apart
  · exact fun _ => rfl
  · intro c rest missed ih apart
    have missed' : afterBackslashes isMember (c :: (rest ++ right)) = none := by
      cases found : afterBackslashes isMember (c :: (rest ++ right)) with
      | none => rfl
      | some m =>
          obtain ⟨run, d, after, joined, backslashes, member⟩ :=
            afterBackslashes_of_append (List.cons_ne_nil c rest) apart found
          rw [joined, afterBackslashes_run noBackslash backslashes member after] at missed
          cases missed
    have apart' : Apart (fun c => isMember c = false ∧ c ≠ '\\') rest right := by
      refine apart.imp_left fun last => ?_
      cases rest with
      | nil => simp
      | cons d rest => simpa using last
    rw [List.cons_append, replaceAll_of_none missed', ih apart', List.cons_append]
  · intro c rest m found ih apart
    obtain ⟨run, d, after, joined, backslashes, member, rfl⟩ := afterBackslashes_eq_some found
    have joined' : c :: (rest ++ right) = run ++ d :: (after ++ right) := by
      rw [← List.cons_append, joined, List.append_assoc, List.cons_append]
    have found' : afterBackslashes isMember (c :: (rest ++ right)) =
        some ⟨run ++ [d], [run, [d]]⟩ := by
      rw [joined']
      exact afterBackslashes_run noBackslash backslashes member _
    have apart' : Apart (fun c => isMember c = false ∧ c ≠ '\\') after right := by
      refine apart.imp_left fun last => ?_
      rw [joined, List.getLast?_append, List.getLast?_cons] at last
      cases after with
      | nil => simp
      | cons e after => simpa [List.getLast?_cons] using last
    rw [drop_whole joined] at ih ⊢
    rw [List.cons_append, replaceAll_of_some found', drop_whole joined', ih apart',
      List.append_assoc]

end EcmaScribe.Text
