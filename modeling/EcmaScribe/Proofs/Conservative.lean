/-
# EcmaScribe.Proofs.Conservative -- safe output that has nothing to make safe

A compact script that is ASCII without NUL and holds no tag opener, terminated or not, is its own
safe script (`Node.webSafe_eq_compact`).

The two streams go through the same instructions side by side.  What the compact stream has
written is kept, so every token and every seam is part of its final text: a harmless text
(`Harmless`) hands that down to them.  A harmless token is what sanitizing leaves alone, and the
safe stream puts no blank at a seam that the compact one leaves closed, since there the opener
that it looks for would stand in the compact text.
-/
import EcmaScribe.Proofs.SafeSpelling

namespace EcmaScribe

set_option autoImplicit false

open Text

/-! ## Harmless text -/

/-- ASCII without NUL that holds no tag opener, be it terminated or not. -/
structure Text.Harmless (text : List Char) : Prop where
  ascii : ∀ c ∈ text, isAscii c = true ∧ c ≠ '\x00'
  closed : ∀ i, openerLength? (text.drop i) = none

theorem Text.Harmless.of_infix {part text : List Char} (h : Harmless text)
    (inside : part <:+: text) : Harmless part := by
  obtain ⟨left, right, rfl⟩ := inside
  refine ⟨fun c member => h.ascii c (by simp [member]), fun i => ?_⟩
  cases opener : openerLength? (part.drop i) with
  | none => rfl
  | some n =>
      have within : i ≤ part.length := by
        have := length_le_of_openerLength? opener
        rw [List.length_drop] at this
        omega
      have same : (left ++ part ++ right).drop (left.length + i) = part.drop i ++ right := by
        rw [List.append_assoc, List.drop_append, List.drop_of_length_le (by omega), List.nil_append,
          Nat.add_sub_cancel_left, drop_append_left within]
      have found := openerLength?_append right opener
      rw [← same, h.closed] at found
      cases found

/-- No pass finds anything in harmless text. -/
theorem Text.Harmless.sanitize_eq {text : List Char} (h : Harmless text) :
    sanitize text = text := by
  rw [sanitize_eq_scriptTagPass, escaped_eq_self h.ascii]
  refine replaceAll_eq_self fun suffix inText => ?_
  show scriptTag suffix = none
  by_contra found
  obtain ⟨n, c, opener, -⟩ := scriptTag_isSome_iff.1 (Option.isSome_iff_ne_none.2 found)
  have none := (h.of_infix inText.isInfix).closed 0
  rw [List.drop_zero, opener] at none
  cases none

theorem Text.Harmless.not_straddles {left right : List Char} (h : Harmless (left ++ right)) :
    ¬ Straddles left right := by
  rintro ⟨i, n, opener, -⟩
  rw [h.closed] at opener
  cases opener

/-! ## Openers as parts of a text -/

/-- The openers in lower case. -/
def Text.openers : List String := ["<script", "</script"]

/-- A word that is found up to case starts the text in lower case. -/
theorem Text.prefix_of_startsWithWord {word text : List Char}
    (ascii : ∀ c ∈ text, isAscii c = true) (h : startsWithWord word text = true) :
    word <+: text.map Char.toLower := by
  induction word generalizing text with
  | nil => exact List.nil_prefix
  | cons letter word ih =>
      cases text with
      | nil => simp [startsWithWord] at h
      | cons c text =>
          simp only [startsWithWord, Bool.and_eq_true] at h
          have same : letter = c.toLower := by
            have kind := h.1
            simp only [isLetter, Bool.or_eq_true, decide_eq_true_eq, Bool.and_eq_true] at kind
            rcases kind with lower | ⟨-, long⟩
            · exact lower.symm
            · have foreign := ascii c (by simp)
              rw [long] at foreign
              cases foreign
          rw [List.map_cons, same, List.cons_prefix_cons]
          exact ⟨rfl, ih (fun d member => ascii d (by simp [member])) h.2⟩

/-- A text without openers in any letter case is harmless. -/
theorem Text.harmless_of_no_opener {text : List Char}
    (ascii : ∀ c ∈ text, isAscii c = true ∧ c ≠ '\x00')
    (closed : ∀ tag ∈ openers, ¬ tag.toList <:+: text.map Char.toLower) : Harmless text := by
  refine ⟨ascii, fun i => ?_⟩
  cases opener : openerLength? (text.drop i) with
  | none => rfl
  | some n =>
      exfalso
      obtain ⟨slash, rest, isSlash, joined, word, -⟩ := openerLength?_eq_some_iff.1 opener
      have inRest : ∀ c ∈ rest, isAscii c = true := fun c member =>
        (ascii c (List.mem_of_mem_drop (by rw [joined]; simp [member]))).1
      have front := prefix_of_startsWithWord inRest word
      have inside : (text.drop i).map Char.toLower <:+: text.map Char.toLower :=
        (List.drop_suffix i text).isInfix.map _
      rw [joined] at inside
      rcases isSlash with rfl | rfl
      · refine closed "<script" (by decide) (List.IsInfix.trans (List.IsPrefix.isInfix ?_) inside)
        simpa [scriptWord] using front
      · refine closed "</script" (by decide) (List.IsInfix.trans (List.IsPrefix.isInfix ?_) inside)
        simpa [scriptWord] using front

/-! ## One token -/

/-- The layout of compact output. -/
abbrev Layout.compactOutput : Layout := .ofOptions .compact

namespace Stream

variable {s : Stream}

/-- Where harmless text is written, the safe stream finds no seam to keep open. -/
theorem gap_webSafe {token : List Char}
    (harmless : Harmless (s.text ++ s.gap .compactOutput token ++ token)) :
    s.gap .webSafe token = s.gap .compactOutput token := by
  by_cases breaks : (s.pendingBreak && !s.written.isEmpty) = true
  · simp only [gap, breaks, if_true]
    rfl
  · by_cases apart : ((s.pendingSpace && !s.written.isEmpty) || s.needsSeparator token) = true
    · simp only [gap, breaks, apart, Bool.true_or, if_true, Bool.false_eq_true, if_false]
    · have touching : s.gap .compactOutput token = [] := by
        simp only [gap, breaks, apart, Layout.ofOptions, Bool.false_and, Bool.or_false,
          Bool.false_eq_true, if_false]
      rw [touching, List.append_nil] at harmless
      have seam : Text.formsOpenerAfter s.written token = false := by
        rw [Bool.eq_false_iff, ne_eq, formsOpenerAfter_eq_true_iff]
        exact harmless.not_straddles
      rw [touching]
      simp only [gap, breaks, apart, seam, Bool.and_false, Bool.or_false, Bool.false_eq_true,
        if_false]

theorem suffix_writeToken (s : Stream) (layout : Layout) (token : List Char) :
    token <:+ (s.writeToken layout token).text := by
  unfold writeToken
  split
  · rename_i empty
    rw [List.isEmpty_iff.1 empty]
    exact List.nil_suffix
  · rw [text_append]
    exact List.suffix_append _ _

theorem writeToken_webSafe {token : List Char}
    (harmless : Harmless (s.writeToken .compactOutput token).text) :
    s.writeToken .webSafe token = s.writeToken .compactOutput token := by
  unfold writeToken at harmless ⊢
  split
  · rfl
  · rename_i nonempty
    have seam : Harmless ((s.settleSemicolon token).text ++
        (s.settleSemicolon token).gap .compactOutput token ++ token) := by
      simpa [nonempty, text, append] using harmless
    simp only [gap_webSafe seam]

/-- A token that is written as harmless text is written alike. -/
theorem put_webSafe_of_harmless {token : Token}
    (harmless : Harmless (s.put .compactOutput token).text) :
    s.put .webSafe token = s.put .compactOutput token := by
  cases token with
  | number value => rfl
  | text chars =>
      have same : sanitize chars = chars :=
        (harmless.of_infix (suffix_writeToken s _ chars).isInfix).sanitize_eq
      show s.writeToken .webSafe (sanitize chars) = s.writeToken .compactOutput chars
      rw [same]
      exact writeToken_webSafe harmless

/-- A lexeme that is written as harmless text is basic. -/
theorem basic_of_harmless {l : Lexeme}
    (harmless : Harmless (s.put .compactOutput (l.spell .plain)).text) : l.Basic := by
  cases l with
  | name role text =>
      intro kind c member
      have spelled : (Lexeme.name role text).spell .plain = .text text.toList := by
        simp [Lexeme.spell, Spelling.variableName]
      rw [spelled] at harmless
      have written : text.toList <:+ (s.put .compactOutput (.text text.toList)).text :=
        suffix_writeToken s .compactOutput text.toList
      have ascii := (harmless.ascii c (written.subset member)).1
      simp only [isAscii, decide_eq_true_eq] at ascii
      simp only [isAstral, decide_eq_false_iff_not]
      omega
  | _ => trivial

/-! ## Side by side -/

/-- One instruction, if what it writes is harmless. -/
theorem stepLexeme_webSafe {step : Step Lexeme}
    (harmless : Harmless (s.stepLexeme .plain .compactOutput step).text) :
    s.stepLexeme .webSafe .webSafe step = s.stepLexeme .plain .compactOutput step := by
  cases step with
  | put l =>
      calc s.put .webSafe (l.spell .webSafe)
          = s.put .webSafe (l.spell .plain) := ((basic_of_harmless harmless).put_webSafe s).symm
        _ = s.put .compactOutput (l.spell .plain) := put_webSafe_of_harmless harmless
  | optionalSemicolon | space | lineBreak | indent | dedent => rfl

/-- All instructions, if the text that they end in is harmless. -/
theorem runFrom_webSafe (steps : List (Step Lexeme)) {s : Stream}
    (harmless : Harmless ((s.runFrom .compactOutput
      (steps.map (Step.map (Lexeme.spell .plain)))).finish .compactOutput)) :
    s.runFrom .webSafe (steps.map (Step.map (Lexeme.spell .webSafe))) =
      s.runFrom .compactOutput (steps.map (Step.map (Lexeme.spell .plain))) := by
  induction steps generalizing s with
  | nil => rfl
  | cons step steps ih =>
      have kept := prefix_finish_runFrom (s.stepLexeme .plain .compactOutput step) .compactOutput
        (steps.map (Step.map (Lexeme.spell .plain)))
      have same := stepLexeme_webSafe (harmless.of_infix kept.isInfix)
      show (s.stepLexeme .webSafe .webSafe step).runFrom .webSafe _ =
        (s.stepLexeme .plain .compactOutput step).runFrom .compactOutput _
      rw [same]
      exact ih harmless

end Stream

/-! ## Scripts -/

namespace Node

/-- **Safe output changes nothing that is safe.**  A compact script that is ASCII without NUL and
in which no tag is opened, in any letter case and with or without a terminator, is the safe
script. -/
theorem webSafe_eq_compact {program : Program}
    (ascii : ∀ c ∈ program.compact, isAscii c = true ∧ c ≠ '\x00')
    (closed : ∀ tag ∈ openers, ¬ tag.toList <:+: program.compact.map Char.toLower) :
    program.webSafe = program.compact := by
  have same := Stream.runFrom_webSafe (s := .start) (program.fragment.steps false)
    (harmless_of_no_opener ascii closed)
  exact congrArg (Stream.finish .webSafe) same

/-- Openers that lack their last letter: one in a string, one over the seam between an operator
and a regular expression. -/
def nearlyOpened : Program :=
  .script .nil
    (.cons (.evaluate (.binary (.string "<SCRIP\\") .lessThan (.regExp "scrip\\x74" "g"))) .nil)

theorem webSafe_nearlyOpened :
    (∀ c ∈ nearlyOpened.compact, isAscii c = true ∧ c ≠ '\x00') ∧
      (∀ tag ∈ openers, ¬ tag.toList <:+: nearlyOpened.compact.map Char.toLower) ∧
      nearlyOpened.webSafe = "\"<SCRIP\\\\\"</scrip\\x74/g;".toList := by
  have written : nearlyOpened.compact =
      "\"<SCRIP\\\\\"</scrip\\x74/g;".toList := by decide +kernel
  have ascii : ∀ c ∈ nearlyOpened.compact, isAscii c = true ∧ c ≠ '\x00' := by
    rw [written]
    decide
  have closed : ∀ tag ∈ openers, ¬ tag.toList <:+: nearlyOpened.compact.map Char.toLower := by
    rw [written]
    decide +kernel
  exact ⟨ascii, closed, (webSafe_eq_compact ascii closed).trans written⟩

end Node

end EcmaScribe
