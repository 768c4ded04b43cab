/-
# EcmaScribe.Proofs.Text.Contract -- sanitizing touches exactly the unsafe texts

A scan hands a text back as it is if nothing matches, and writes it anew otherwise, even if a
match were replaced by itself.  The sanitizer chains three scans, the one for names four.
`rewrite?`, `sanitize?` and `sanitizeName?` tell the two outcomes apart: `none` is a text handed
back.

`Contract` is what a caller may rely on.  It follows from three facts (`Contract.of_safe`): the
outcome is the sanitized text, sanitized text is safe, and safe text is handed back.  The
converse, that no unsafe text is handed back, needs no look at the scans: a text that comes back
as it was given is the sanitized one, which is safe.
-/
import EcmaScribe.Proofs.Text.Resanitize

namespace EcmaScribe.Text

set_option autoImplicit false

/-! ## Handing back -/

/-- The text that a scan writes anew, if there is anything to replace. -/
def rewrite? (pattern : Pattern) (replacement : Match → List Char) (text : List Char) :
    Option (List Char) :=
  if occurs pattern text then some (replaceAll pattern replacement text) else none

def Pass.rewrite? (pass : Pass) (text : List Char) : Option (List Char) :=
  Text.rewrite? pass.pattern pass.replacement text

/-- The text that the passes write anew: each goes over what the ones before it have left. -/
def sanitize? (text : List Char) : Option (List Char) :=
  passes.foldl (fun written pass => (pass.rewrite? (written.getD text)).or written) none

def sanitizeName? (name : List Char) : Option (List Char) :=
  match rewrite? (singleChar isAstral) escapeCodePoint name with
  | none => sanitize? name
  | some escaped => some (sanitize escaped)

/-- What a caller of a sanitizer relies on; `write?` tells when a text is written anew. -/
structure Contract (write : List Char → List Char) (write? : List Char → Option (List Char)) :
    Prop where
  outcome : ∀ text, (write? text).getD text = write text
  safe : ∀ text, isWebSafe (write text) = true
  handedBack : ∀ text, write? text = none ↔ isWebSafe text = true
  unchanged : ∀ text, write text = text ↔ isWebSafe text = true
  again : ∀ text, write (write text) = write text

/-- It is enough that safe text is handed back and that whatever is written is safe. -/
theorem Contract.of_safe {write : List Char → List Char} {write? : List Char → Option (List Char)}
    (outcome : ∀ text, (write? text).getD text = write text)
    (safe : ∀ text, isWebSafe (write text) = true)
    (kept : ∀ text, isWebSafe text = true → write? text = none) : Contract write write? := by
  have unchanged (text : List Char) : write text = text ↔ isWebSafe text = true := by
    constructor <;> intro h
    · rw [← h]
      exact safe text
    · rw [← outcome, kept text h]
      rfl
  refine ⟨outcome, safe, fun text => ⟨fun h => ?_, kept text⟩, unchanged, fun text => ?_⟩
  · rw [← unchanged, ← outcome, h]
    rfl
  · exact (unchanged _).2 (safe text)

/-! ## One scan -/

section Scan

variable {pattern : Pattern} {replacement : Match → List Char} {text : List Char}

/-- Nothing matches in a text exactly if the pattern fails at every place. -/
theorem occurs_eq_false_iff (empty : pattern [] = none) :
    occurs pattern text = false ↔ ∀ suffix, suffix <:+ text → pattern suffix = none := by
  rw [← Bool.not_eq_true, occurs_eq_true_iff empty]
  simp only [not_exists, Option.not_isSome_iff_eq_none]
  constructor
  · rintro never suffix ⟨front, rfl⟩
    simpa using never front.length
  · exact fun never i => never _ (List.drop_suffix i text)

/-- The two outcomes are those of the replacement itself. -/
theorem rewrite?_eq_replaced? (text : List Char) :
    rewrite? pattern replacement text = replaced? pattern replacement text := by
  cases outcome : replaced? pattern replacement text with
  | none => simp [rewrite?, replaced?_eq_none_iff.1 outcome]
  | some rewritten =>
      have found : occurs pattern text ≠ false := fun never => by
        rw [replaced?_eq_none_iff.2 never] at outcome
        cases outcome
      simp [rewrite?, found, replaceAll, outcome]

/-- Handed back or written anew, the outcome is the text with every match replaced. -/
theorem getD_rewrite? (text : List Char) :
    (rewrite? pattern replacement text).getD text = replaceAll pattern replacement text := by
  rw [rewrite?_eq_replaced?, replaceAll]

theorem rewrite?_eq_none (never : occurs pattern text = false) :
    rewrite? pattern replacement text = none := by
  simp [rewrite?, never]

theorem occurs_afterBackslashes {isMember : Char → Bool} (none : ∀ c ∈ text, isMember c = false) :
    occurs (afterBackslashes isMember) text = false :=
  (occurs_eq_false_iff rfl).2 fun _ inText => afterBackslashes_eq_none fun c member =>
    none c (inText.subset member)

theorem occurs_singleChar {isMember : Char → Bool} (none : ∀ c ∈ text, isMember c = false) :
    occurs (singleChar isMember) text = false := by
  refine (occurs_eq_false_iff rfl).2 fun suffix inText => ?_
  cases suffix with
  | nil => rfl
  | cons c rest => simp [singleChar, none c (inText.subset (by simp))]

end Scan

/-! ## All scans -/

/-- A step of the chain goes on with the outcome of the step before. -/
theorem getD_foldl_rewrite? (text : List Char) (steps : List Pass)
    (written : Option (List Char)) :
    (steps.foldl (fun written pass => (pass.rewrite? (written.getD text)).or written) written).getD
        text = steps.foldl (fun text pass => pass.apply text) (written.getD text) := by
  induction steps generalizing written with
  | nil => rfl
  | cons pass steps ih =>
      have one : ((pass.rewrite? (written.getD text)).or written).getD text =
          pass.apply (written.getD text) := by
        rw [Option.getD_or]
        exact getD_rewrite? _
      rw [List.foldl_cons, ih, one, List.foldl_cons]

theorem getD_sanitize? (text : List Char) : (sanitize? text).getD text = sanitize text :=
  getD_foldl_rewrite? text passes none

/-- In a safe text no pass finds anything. -/
theorem occurs_of_isWebSafe {text : List Char} (safe : isWebSafe text = true) :
    ∀ pass ∈ passes, occurs pass.pattern text = false := by
  simp only [isWebSafe, Bool.and_eq_true, List.all_eq_true, Bool.not_eq_true',
    List.contains_eq_mem, decide_eq_false_iff_not] at safe
  obtain ⟨⟨ascii, nonzero⟩, noTag⟩ := safe
  simp only [passes, List.forall_mem_cons]
  refine ⟨occurs_afterBackslashes fun c member => ?_,
    occurs_afterBackslashes fun c member => ?_, noTag, by simp⟩
  · have other : c ≠ '\x00' := fun same => nonzero (same ▸ member)
    simpa [isNul] using other
  · simp [ascii c member]

theorem sanitize?_eq_none {text : List Char} (safe : isWebSafe text = true) :
    sanitize? text = none := by
  have never := occurs_of_isWebSafe safe
  unfold sanitize?
  generalize passes = steps at never ⊢
  induction steps with
  | nil => rfl
  | cons pass steps ih =>
      obtain ⟨first, others⟩ := List.forall_mem_cons.1 never
      rw [List.foldl_cons, Option.getD_none, Pass.rewrite?, rewrite?_eq_none first]
      exact ih others

/-! ## Both sanitizers -/

theorem contract_sanitize : Contract sanitize sanitize? :=
  .of_safe getD_sanitize? isWebSafe_sanitize fun _ => sanitize?_eq_none

theorem contract_sanitizeName : Contract sanitizeName sanitizeName? := by
  refine .of_safe (fun name => ?_) (fun name => isWebSafe_sanitize _) fun name safe => ?_
  · have outcome : (rewrite? (singleChar isAstral) escapeCodePoint name).getD name =
        replaceAll (singleChar isAstral) escapeCodePoint name := getD_rewrite? name
    rw [sanitizeName, ← outcome, sanitizeName?]
    cases rewrite? (singleChar isAstral) escapeCodePoint name with
    | none => exact getD_sanitize? name
    | some escaped => rfl
  · have basic : ∀ c ∈ name, isAstral c = false := by
      intro c member
      simp only [isWebSafe, Bool.and_eq_true, List.all_eq_true] at safe
      have ascii := safe.1.1 c member
      simp only [isAscii, decide_eq_true_eq] at ascii
      simp only [isAstral, decide_eq_false_iff_not]
      omega
    rw [sanitizeName?, rewrite?_eq_none (occurs_singleChar basic)]
    exact sanitize?_eq_none safe

/-- **The sanitizers write exactly the unsafe texts anew**, and what they write is safe. -/
theorem sanitizers_contract :
    Contract sanitize sanitize? ∧ Contract sanitizeName sanitizeName? :=
  ⟨contract_sanitize, contract_sanitizeName⟩

end EcmaScribe.Text
