/-
# EcmaScribe.Proofs.Text.Verbatim -- replacements are written as they were computed

`Scanned` says what it is to go through a text from the left and replace matches: a gap in which
nothing matches is copied, the match behind it is replaced, and the scan goes on behind the match.
There are no templates in it and no places in the text.  `scanned_iff` says that `replaceAll` is this
scan, for every pattern that finds non-empty pieces at the front of a text; the patterns of the
passes do.  So no dollar sign is ever taken for a reference, whether it stands in the text that is
copied or in what a pass writes.
-/
import EcmaScribe.Proofs.Text.Sanitize

namespace EcmaScribe.Text

set_option autoImplicit false

variable {pattern : Pattern} {replacement : Match → List Char}

/-! ## The scan -/

/-- No match starts in the gap in front of a text. -/
def Misses (pattern : Pattern) (gap rest : List Char) : Prop :=
  ∀ back, back <:+ gap → back ≠ [] → pattern (back ++ rest) = none

/-- A text and what it becomes when gaps are copied and matches are replaced. -/
inductive Scanned (pattern : Pattern) (replacement : Match → List Char) :
    List Char → List Char → Prop
  | last {gap : List Char} (never : Misses pattern gap []) : Scanned pattern replacement gap gap
  | found {gap : List Char} {m : Match} {rest out : List Char}
      (before : Misses pattern gap (m.whole ++ rest)) (first : pattern (m.whole ++ rest) = some m)
      (behind : Scanned pattern replacement rest out) :
      Scanned pattern replacement (gap ++ (m.whole ++ rest)) (gap ++ (replacement m ++ out))

/-- What a pattern finds is a piece of the text, at its front, and not empty. -/
def FindsPieces (pattern : Pattern) : Prop :=
  ∀ {text : List Char} {m : Match}, pattern text = some m → m.whole ≠ [] ∧ m.whole <+: text

theorem misses_nil {rest : List Char} : Misses pattern [] rest := fun _ inGap nonempty =>
  absurd (List.suffix_nil.1 inGap) nonempty

theorem misses_cons {c : Char} {gap rest : List Char} :
    Misses pattern (c :: gap) rest ↔
      pattern (c :: (gap ++ rest)) = none ∧ Misses pattern gap rest := by
  constructor
  · intro h
    exact ⟨h (c :: gap) (List.suffix_refl _) (List.cons_ne_nil _ _),
      fun back inGap => h back (inGap.trans (List.suffix_cons c gap))⟩
  · rintro ⟨first, others⟩ back inGap nonempty
    rcases List.suffix_cons_iff.1 inGap with rfl | inGap
    · exact first
    · exact others back inGap nonempty

/-- One more character in front in which nothing matches is copied. -/
theorem Scanned.copied {c : Char} {text out : List Char} (missed : pattern (c :: text) = none)
    (h : Scanned pattern replacement text out) :
    Scanned pattern replacement (c :: text) (c :: out) := by
  cases h with
  | last never => exact .last (misses_cons.2 ⟨by simpa using missed, never⟩)
  | found before first behind => exact .found (misses_cons.2 ⟨missed, before⟩) first behind

/-! ## Replacing -/

theorem replaceAll_gap {gap rest : List Char} (missed : Misses pattern gap rest) :
    replaceAll pattern replacement (gap ++ rest) =
      gap ++ replaceAll pattern replacement rest := by
  induction gap with
  | nil => rfl
  | cons c gap ih =>
      obtain ⟨first, others⟩ := misses_cons.1 missed
      rw [List.cons_append, replaceAll_of_none first, ih others, List.cons_append]

/-- What is left behind a match: `replaceAll` drops what remains of the match behind its first
character. -/
theorem drop_of_append_eq_cons {c : Char} {whole behind rest : List Char} (nonempty : whole ≠ [])
    (joined : whole ++ behind = c :: rest) : rest.drop (whole.length - 1) = behind := by
  obtain ⟨d, more, rfl⟩ := List.exists_cons_of_ne_nil nonempty
  rw [List.cons_append] at joined
  rw [← (List.cons.inj joined).2, List.length_cons, Nat.add_sub_cancel, List.drop_left]

theorem replaceAll_found {m : Match} {rest : List Char} (nonempty : m.whole ≠ [])
    (first : pattern (m.whole ++ rest) = some m) :
    replaceAll pattern replacement (m.whole ++ rest) =
      replacement m ++ replaceAll pattern replacement rest := by
  obtain ⟨c, more, joined⟩ : ∃ c more, m.whole ++ rest = c :: more :=
    List.exists_cons_of_ne_nil (by simp [nonempty])
  rw [joined] at first ⊢
  rw [replaceAll_of_some first, drop_of_append_eq_cons nonempty joined]

/-- Replacing is the scan, and there is no other outcome of it. -/
theorem scanned_iff (pieces : FindsPieces pattern) {text out : List Char} :
    Scanned pattern replacement text out ↔ out = replaceAll pattern replacement text := by
  constructor
  · intro h
    induction h with
    | @last gap never =>
        have copied : replaceAll pattern replacement (gap ++ []) =
            gap ++ replaceAll pattern replacement [] := replaceAll_gap never
        simpa using copied.symm
    | found before first behind ih =>
        rw [replaceAll_gap before, replaceAll_found (pieces first).1 first, ih]
  · rintro rfl
    refine replaceAll_induction pattern replacement (.last misses_nil)
      (fun c rest missed ih => ih.copied missed) (fun c rest m first ih => ?_) text
    obtain ⟨nonempty, behind, joined⟩ := pieces first
    rw [drop_of_append_eq_cons nonempty joined] at ih ⊢
    rw [← joined] at first ⊢
    exact .found misses_nil first ih

/-! ## The passes -/

theorem findsPieces_afterBackslashes (isMember : Char → Bool) :
    FindsPieces (afterBackslashes isMember) := by
  intro text m found
  obtain ⟨run, c, rest, rfl, -, -, rfl⟩ := afterBackslashes_eq_some found
  exact ⟨by simp, rest, by simp⟩

theorem findsPieces_scriptTag : FindsPieces scriptTag := by
  intro text m found
  obtain ⟨slash, s, name, rest, -, rfl, -, -, rfl⟩ := scriptTag_eq_some found
  exact ⟨by simp, rest, by simp⟩

theorem findsPieces_singleChar (isMember : Char → Bool) : FindsPieces (singleChar isMember) := by
  intro text m found
  cases text with
  | nil => cases found
  | cons c rest =>
      simp only [singleChar, Option.ite_none_right_eq_some, Option.some.injEq] at found
      obtain ⟨-, rfl⟩ := found
      exact ⟨List.cons_ne_nil _ _, rest, rfl⟩

theorem findsPieces_of_mem_passes : ∀ pass ∈ passes, FindsPieces pass.pattern := by
  simp only [passes, List.forall_mem_cons]
  exact ⟨findsPieces_afterBackslashes _, findsPieces_afterBackslashes _, findsPieces_scriptTag,
    by simp⟩

/-- **Replacements are written as they were computed.**  A text made literal expands to itself,
whatever was matched, and what a pass makes of a text is what the plain scan makes of it.  So it
is with the escapes in braces that a name gets before the passes. -/
theorem scanned_iff_eq_apply :
    (∀ (m : Match) (text : List Char), expand m (literally text) = text) ∧
    (∀ pass ∈ passes, ∀ text out,
      Scanned pass.pattern pass.replacement text out ↔ out = pass.apply text) ∧
    ∀ name out, Scanned (singleChar isAstral) escapeCodePoint name out ↔
      out = replaceAll (singleChar isAstral) escapeCodePoint name := by
  refine ⟨expand_literally, fun pass member text out => ?_, fun name out => ?_⟩
  · exact scanned_iff (findsPieces_of_mem_passes pass member)
  · exact scanned_iff (findsPieces_singleChar isAstral)

/-- A closing tag between what look like references. -/
theorem apply_between_references : scriptTagPass ∈ passes ∧
    scriptTagPass.apply "$1</script>$0".toList = "$1</\\x73cript>$0".toList := by
  have member : scriptTagPass ∈ passes := by simp [passes]
  have scanned : Scanned scriptTag defeatScriptTag
      ("$1".toList ++ ("</script>".toList ++ "$0".toList))
      ("$1".toList ++ ("</\\x73cript>".toList ++ "$0".toList)) :=
    .found (m := ⟨"</script>".toList, [['/'], ['s'], "cript>".toList]⟩)
      (by simp [misses_cons, misses_nil, scriptTag]) (by decide)
      (.last (by simp [misses_cons, misses_nil, scriptTag]))
  exact ⟨member, ((scanned_iff_eq_apply.2.1 scriptTagPass member _ _).1 scanned).symm⟩

end EcmaScribe.Text
