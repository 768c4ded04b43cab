/-
# EcmaScribe.Proofs.Layout.Safety -- when safe output opens no script tag

A safe stream sanitizes each token and looks at seven characters on the left of a seam and
eight on the right, so no opener goes over a seam.  What it does not look at is a token that
ends in an opener: if the next one starts with a terminator, or with what is kept apart from
a word by a blank, the two make a tag.  Nothing else does (`isWebSafe_run_iff`).

In the script of a program the one token that may end in an opener is the last text of a
template, and the backtick comes directly after it.  `Sealed` is this condition on the
tokens, and `isWebSafe_run` the result.
-/
import EcmaScribe.Proofs.Layout.Gaps
import EcmaScribe.Proofs.Number.Literal
import EcmaScribe.Proofs.Text.Sanitize

namespace EcmaScribe

set_option autoImplicit false

open Text

/-! ## Clean text -/

theorem isWebSafe_iff {text : List Char} :
    isWebSafe text = true ↔ (∀ c ∈ text, isAscii c = true ∧ c ≠ '\x00') ∧ TagFree text := by
  rw [← occurs_scriptTag_eq_false_iff]
  simp only [isWebSafe, Bool.and_eq_true, List.all_eq_true, Bool.not_eq_true',
    List.contains_eq_mem, decide_eq_false_iff_not]
  constructor
  · rintro ⟨⟨ascii, nonzero⟩, free⟩
    exact ⟨fun c member => ⟨ascii c member, fun zero => nonzero (zero ▸ member)⟩, free⟩
  · rintro ⟨clean, free⟩
    exact ⟨⟨fun c member => (clean c member).1, fun member => (clean _ member).2 rfl⟩, free⟩

/-- Clean texts side by side are clean, unless the seam spells an opener or ends one. -/
theorem isWebSafe_append {left right : List Char} (leftClean : isWebSafe left = true)
    (rightClean : isWebSafe right = true) (seam : ¬ Straddles left right)
    (edge : EndsInOpener left → ∀ c ∈ right.head?, endsTagName c = false) :
    isWebSafe (left ++ right) = true := by
  rw [isWebSafe_iff] at leftClean rightClean ⊢
  exact ⟨List.forall_mem_append.2 ⟨leftClean.1, rightClean.1⟩,
    tagFree_append leftClean.2 rightClean.2 seam edge⟩

/-- A text without `<` is clean as soon as it is ASCII. -/
theorem isWebSafe_of_plain {text : List Char}
    (clean : ∀ c ∈ text, isAscii c = true ∧ c ≠ '\x00') (plain : '<' ∉ text) :
    isWebSafe text = true := by
  refine isWebSafe_iff.2 ⟨clean, fun i n c opener => ?_⟩
  rw [openerLength?_eq_none plain] at opener
  cases opener

theorem not_endsInOpener_of_plain {text : List Char} (plain : '<' ∉ text) :
    ¬ EndsInOpener text := by
  rintro ⟨i, n, opener, -⟩
  rw [openerLength?_eq_none plain] at opener
  cases opener

/-- Only a `t` ends an opener. -/
theorem not_endsInOpener_of_last {text : List Char} {c : Char} (last : text.getLast? = some c)
    (foreign : c ≠ 't' ∧ c ≠ 'T') : ¬ EndsInOpener text := by
  intro h
  rcases getLast?_of_endsInOpener h with small | capital
  · exact foreign.1 (Option.some.inj (last.symm.trans small))
  · exact foreign.2 (Option.some.inj (last.symm.trans capital))

/-- No opener goes over a character that none holds. -/
theorem not_straddles_after {c : Char}
    (foreign : c ≠ '<' ∧ c ≠ '/' ∧ ∀ letter ∈ scriptWord, isLetter c letter = false)
    (left right : List Char) : ¬ Straddles (left ++ [c]) right := by
  rintro ⟨i, n, opener, before, after⟩
  rw [List.append_assoc, List.singleton_append] at opener
  simp only [List.length_append, List.length_singleton] at before after
  by_cases inside : i < left.length
  · exact not_straddles_of_head rfl foreign.2.1 foreign.2.2 ⟨i, n, opener, inside, by omega⟩
  · have place : i = left.length := by omega
    subst place
    rw [List.drop_left, openerLength?_eq_none_of_head (by simpa using foreign.1)] at opener
    cases opener

/-- A character that no opener holds may stand in front of a clean text. -/
theorem isWebSafe_cons {c : Char} {text : List Char}
    (foreign : c ≠ '<' ∧ c ≠ '/' ∧ ∀ letter ∈ scriptWord, isLetter c letter = false)
    (alone : isWebSafe [c] = true) (clean : isWebSafe text = true) :
    isWebSafe (c :: text) = true := by
  have noOpener : ¬ EndsInOpener [c] :=
    not_endsInOpener_of_plain (by simpa using foreign.1.symm)
  exact isWebSafe_append alone clean (not_straddles_after foreign [] text)
    fun opener => absurd opener noOpener

/-- Such a character may stand between two texts, if it ends no opener either. -/
theorem isWebSafe_append_cons {left right : List Char} {c : Char}
    (foreign : c ≠ '/' ∧ (∀ letter ∈ scriptWord, isLetter c letter = false) ∧
      endsTagName c = false)
    (leftClean : isWebSafe left = true) (rightClean : isWebSafe (c :: right) = true) :
    isWebSafe (left ++ c :: right) = true := by
  refine isWebSafe_append leftClean rightClean
    (not_straddles_of_head rfl foreign.1 foreign.2.1) fun _ d first => ?_
  obtain rfl : c = d := by simpa using first
  exact foreign.2.2

/-! ## Tokens -/

/-- What safe output writes for a token. -/
def Token.safeText : Token → List Char
  | text chars => sanitize chars
  | number value => value.literal true

/-- A number is clean, and nothing straddles into it. -/
theorem isWebSafe_literal (value : Double) : isWebSafe (value.literal true) = true ∧
    ¬ EndsInOpener (value.literal true) ∧ ∀ left, ¬ Straddles left (value.literal true) := by
  have plain := value.forall_mem_literal
    (P := fun c => isAscii c = true ∧ c ≠ '\x00' ∧ c ≠ '<') (by decide) (by decide) true
  have noAngle : '<' ∉ value.literal true := fun member => (plain _ member).2.2 rfl
  refine ⟨isWebSafe_of_plain (fun c member => ⟨(plain c member).1, (plain c member).2.1⟩) noAngle,
    not_endsInOpener_of_plain noAngle, fun left => ?_⟩
  obtain ⟨c, rest, written, slash, letters⟩ := value.literal_head
    (P := fun c => c ≠ '/' ∧ ∀ letter ∈ scriptWord, isLetter c letter = false)
    (by decide) (by decide) true
  exact not_straddles_of_head written slash letters

theorem Token.isWebSafe_safeText (token : Token) : isWebSafe token.safeText = true := by
  cases token with
  | text chars => exact isWebSafe_sanitize chars
  | number value => exact (isWebSafe_literal value).1

/-- A token is sanitized over its seams, too, unless nothing straddles into it. -/
theorem Token.safe_or_not_straddles (token : Token) :
    (Layout.webSafe.forToken token).safe = true ∨ ∀ left, ¬ Straddles left token.safeText := by
  cases token with
  | text chars => exact .inl rfl
  | number value => exact .inr (isWebSafe_literal value).2.2

/-- Whether a text written after an opener makes a tag of it: it starts with a terminator, or
with what is kept apart from a word by a blank, and the blank is a terminator. -/
def completesTag (text : List Char) : Bool :=
  text.head?.any fun c => isIdentifierPart c || endsTagName c

/-- The second text makes no tag of an opener at the end of the first. -/
def LeavesOpen (x y : List Char) : Prop := EndsInOpener x → completesTag y = false

/-- What safe output writes for an instruction, if that is not blank. -/
def Step.safeText? (step : Step Token) : Option (List Char) :=
  (step.token?.map Token.safeText).filter (· ≠ [])

theorem Step.safeText?_eq_some_iff {step : Step Token} {text : List Char} :
    step.safeText? = some text ↔
      ∃ token, step.token? = some token ∧ token.safeText = text ∧ text ≠ [] := by
  simp only [safeText?, Option.filter_eq_some_iff, Option.map_eq_some_iff, decide_eq_true_eq]
  constructor
  · rintro ⟨⟨token, written, same⟩, nonempty⟩
    exact ⟨token, written, same, nonempty⟩
  · rintro ⟨token, written, same, nonempty⟩
    exact ⟨⟨token, written, same⟩, nonempty⟩

theorem Step.safeText_eq_nil {step : Step Token} (blank : step.safeText? = none) {token : Token}
    (written : step.token? = some token) : token.safeText = [] := by
  by_contra nonempty
  rw [safeText?_eq_some_iff.2 ⟨token, written, rfl, nonempty⟩] at blank
  cases blank

/-- What safe output writes for instructions, blank texts left out. -/
def safeTexts (steps : List (Step Token)) : List (List Char) := steps.filterMap Step.safeText?

/-! ## Writing -/

namespace Stream

@[simp] theorem text_append (s : Stream) (token : List Char) :
    (s.append token).text = s.text ++ token := by
  simp [append, text]

/-- What is written stays. -/
theorem prefix_writeToken (s : Stream) (layout : Layout) (token : List Char) :
    s.text <+: (s.writeToken layout token).text := by
  unfold writeToken
  split
  · exact List.prefix_refl _
  · have settled : s.text <+: (s.settleSemicolon token).text := by
      rw [text_settleSemicolon]
      exact List.prefix_append _ _
    refine settled.trans ?_
    simp [text, append]

theorem prefix_step (s : Stream) (layout : Layout) (step : Step Token) :
    s.text <+: (s.step layout step).text := by
  cases step with
  | put token => cases token <;> exact prefix_writeToken s _ _
  | optionalSemicolon =>
      simp only [Stream.step, putOptionalSemicolon]
      split
      · split
        · exact ⟨[';'], (text_append s [';']).symm⟩
        · exact List.prefix_refl _
      · exact prefix_writeToken s _ _
  | space | lineBreak =>
      simp only [Stream.step]
      split <;> exact List.prefix_refl _
  | indent | dedent => exact List.prefix_refl _

theorem prefix_finish_runFrom (s : Stream) (layout : Layout) (steps : List (Step Token)) :
    s.text <+: (s.runFrom layout steps).finish layout := by
  induction steps generalizing s with
  | nil =>
      show s.text <+: s.finish layout
      rw [@finish_eq .plain, List.append_assoc]
      exact List.prefix_append _ _
  | cons step steps ih => exact (prefix_step s layout step).trans (ih _)

/-! ## Clean streams -/

/-- What a safe stream keeps as long as it has written no tag. -/
structure Clean (s : Stream) : Prop where
  clean : isWebSafe s.text = true
  noSpace : s.pendingSpace = false
  noBreak : s.pendingBreak = false
  word : EndsInOpener s.text → s.lastInteger = false

/-- The next token comes directly after an opener. -/
def Opened (s : Stream) : Prop := EndsInOpener s.text ∧ s.pendingSemicolon = false

theorem clean_start : start.Clean where
  clean := rfl
  noSpace := rfl
  noBreak := rfl
  word := fun _ => rfl

theorem not_opened_start : ¬ start.Opened :=
  fun opened => not_endsInOpener_of_plain (by decide) opened.1

/-- A token that ends in an opener is no integer. -/
theorem lastInteger_append_of_opener {s : Stream} {token : List Char} (nonempty : token ≠ [])
    (opener : EndsInOpener (s.append token).text) : (s.append token).lastInteger = false := by
  have last := getLast?_of_endsInOpener opener
  rw [text_append, List.getLast?_append_of_ne_nil _ nonempty] at last
  refine List.all_eq_false.2 ?_
  rcases last with small | capital
  · exact ⟨_, List.mem_of_getLast? small, by decide⟩
  · exact ⟨_, List.mem_of_getLast? capital, by decide⟩

/-- A semicolon of the stream's own. -/
theorem Clean.semicolon {s : Stream} (h : s.Clean) :
    (s.append [';']).Clean ∧ ¬ EndsInOpener (s.append [';']).text where
  left :=
    { clean := by
        rw [text_append]
        exact isWebSafe_append h.clean (by decide)
          (not_straddles_of_head rfl (by decide) (by decide)) fun _ c first => by
            cases first
            decide
      noSpace := h.noSpace
      noBreak := h.noBreak
      word := lastInteger_append_of_opener (by simp) }
  right := by
    rw [text_append]
    exact not_endsInOpener_of_last (c := ';') (by simp) (by decide)

/-- An opener is still at the end when a token is due, unless a semicolon was. -/
theorem Clean.settle {s : Stream} (h : s.Clean) (token : List Char) :
    (s.settleSemicolon token).Clean ∧ (s.settleSemicolon token).pendingSemicolon = false ∧
      (s.Opened → EndsInOpener (s.settleSemicolon token).text) ∧
      (EndsInOpener (s.settleSemicolon token).text → s.Opened ∨ token = ['\x7d']) := by
  unfold settleSemicolon
  split
  · rename_i pending
    have dropped : ({ s with pendingSemicolon := false } : Stream).Clean :=
      ⟨h.clean, h.noSpace, h.noBreak, h.word⟩
    have covered : ¬ s.Opened := fun opened => by
      rw [opened.2] at pending
      cases pending
    dsimp only
    split
    · rename_i brace
      exact ⟨dropped, rfl, fun opened => absurd opened covered, fun _ => .inr brace⟩
    · exact ⟨dropped.semicolon.1, rfl, fun opened => absurd opened covered,
        fun opener => absurd opener dropped.semicolon.2⟩
  · rename_i none
    have settled : s.pendingSemicolon = false := by simpa using none
    exact ⟨h, settled, fun opened => opened.1, fun opener => .inl ⟨opener, settled⟩⟩

/-- After an opener a blank is left exactly before what goes on with a word. -/
theorem Clean.gap_of_opener {s : Stream} (h : s.Clean) (opener : EndsInOpener s.text)
    (layout : Layout) (next : Char) (rest : List Char) :
    s.gap layout (next :: rest) = if isIdentifierPart next then [' '] else [] := by
  have apart : formsOpenerAfter s.written (next :: rest) = false :=
    Bool.eq_false_iff.2 fun forms =>
      not_straddles_of_endsInOpener opener _ (formsOpenerAfter_eq_true_iff.1 forms)
  have separates : s.needsSeparator (next :: rest) = isIdentifierPart next := by
    obtain ⟨last, before, written, letter⟩ : ∃ last before, s.written = last :: before ∧
        (last = 't' ∨ last = 'T') := by
      have last := getLast?_of_endsInOpener opener
      rw [text, List.getLast?_reverse] at last
      rcases last with small | capital
      · obtain ⟨before, written⟩ := List.head?_eq_some_iff.1 small
        exact ⟨_, before, written, .inl rfl⟩
      · obtain ⟨before, written⟩ := List.head?_eq_some_iff.1 capital
        exact ⟨_, before, written, .inr rfl⟩
    rw [needsSeparator_cons written, h.word opener]
    rcases letter with rfl | rfl <;> simp [isIdentifierPart, isAscii]
  simp [gap, h.noBreak, h.noSpace, separates, apart]

/-- A gap of the stream's own keeps openers apart, and a missing gap means that none is spelled
over the seam. -/
theorem Clean.gap_cases {s : Stream} (h : s.Clean) (layout : Layout) {token : List Char}
    (apart : layout.safe = true ∨ ∀ left, ¬ Straddles left token) :
    s.gap layout token = [' '] ∨ s.gap layout token = [] ∧ ¬ Straddles s.text token := by
  unfold gap
  simp only [h.noBreak, h.noSpace, Bool.false_and, Bool.false_or, Bool.false_eq_true, if_false]
  split
  · exact .inl rfl
  · rename_i joined
    refine .inr ⟨rfl, apart.elim (fun safe straddles => joined ?_) fun never => never s.text⟩
    rw [safe, formsOpenerAfter_eq_true_iff.2 straddles, Bool.and_self, Bool.or_true]

/-- A clean token after a clean text, if it makes no tag of an opener there. -/
theorem Clean.joined {s : Stream} (h : s.Clean) (layout : Layout) {token : List Char}
    (nonempty : token ≠ []) (clean : isWebSafe token = true)
    (apart : layout.safe = true ∨ ∀ left, ¬ Straddles left token)
    (leaves : EndsInOpener s.text → completesTag token = false) :
    isWebSafe (s.text ++ s.gap layout token ++ token) = true ∧
      (EndsInOpener (s.text ++ s.gap layout token ++ token) ↔ EndsInOpener token) := by
  obtain ⟨next, rest, rfl⟩ := List.exists_cons_of_ne_nil nonempty
  have harmless (opener : EndsInOpener s.text) :
      isIdentifierPart next = false ∧ endsTagName next = false := by
    simpa [completesTag] using leaves opener
  rcases h.gap_cases layout apart with blank | ⟨none, noSeam⟩
  · have closed : ¬ EndsInOpener s.text := fun opener => by
      rw [h.gap_of_opener opener, (harmless opener).1] at blank
      cases blank
    have separated : isWebSafe (s.text ++ [' ']) = true :=
      isWebSafe_append h.clean (by decide) (not_straddles_of_head rfl (by decide) (by decide))
        fun opener => absurd opener closed
    have covered : ¬ EndsInOpener (s.text ++ [' ']) :=
      not_endsInOpener_of_last (c := ' ') (by simp) (by decide)
    have noSeam := not_straddles_after (c := ' ') (by decide) s.text (next :: rest)
    rw [blank]
    exact ⟨isWebSafe_append separated clean noSeam fun opener => absurd opener covered,
      endsInOpener_of_append noSeam nonempty, endsInOpener_append _⟩
  · rw [none, List.append_nil]
    refine ⟨isWebSafe_append h.clean clean noSeam fun opener c first => ?_,
      endsInOpener_of_append noSeam nonempty, endsInOpener_append _⟩
    cases first
    exact (harmless opener).2

/-- A token that makes a tag of an opener. -/
theorem Clean.not_isWebSafe_joined {s : Stream} (h : s.Clean) (opener : EndsInOpener s.text)
    (layout : Layout) {token : List Char} (completes : completesTag token = true) :
    isWebSafe (s.text ++ s.gap layout token ++ token) = false := by
  obtain ⟨next, first, kind⟩ := Option.any_eq_true _ _ |>.1 completes
  obtain ⟨rest, rfl⟩ := List.head?_eq_some_iff.1 first
  have tagged : ¬ TagFree (s.text ++ s.gap layout (next :: rest) ++ next :: rest) := by
    rw [h.gap_of_opener opener, List.append_assoc]
    cases part : isIdentifierPart next with
    | true => exact not_tagFree_of_terminated opener (c := ' ') rfl rfl
    | false =>
        rw [part, Bool.false_or] at kind
        exact not_tagFree_of_terminated opener (c := next) rfl kind
  exact Bool.eq_false_iff.2 fun safe => tagged (isWebSafe_iff.1 safe).2

/-! ## Steps -/

theorem put_webSafe (s : Stream) (token : Token) : s.put .webSafe token =
    s.writeToken (Layout.webSafe.forToken token) token.safeText := by
  cases token <;> rfl

/-- What writing a token that is not blank leads to. -/
theorem Clean.put {s : Stream} (h : s.Clean) {token : Token} (written : token.safeText ≠ []) :
    ((s.Opened → completesTag token.safeText = false) → (s.put .webSafe token).Clean ∧
        ((s.put .webSafe token).Opened ↔ EndsInOpener token.safeText)) ∧
      (s.Opened → completesTag token.safeText = true →
        isWebSafe (s.put .webSafe token).text = false) := by
  obtain ⟨settled, pending, kept, opened⟩ := h.settle token.safeText
  generalize hs : s.settleSemicolon token.safeText = t at settled pending kept opened
  have put : s.put .webSafe token =
      { t with
        written := (t.gap (Layout.webSafe.forToken token) token.safeText).reverse ++ t.written
        pendingBreak := false
        pendingSpace := false : Stream }.append token.safeText := by
    rw [put_webSafe]
    simp [writeToken, written, hs]
  have text_eq : (s.put .webSafe token).text =
      t.text ++ t.gap (Layout.webSafe.forToken token) token.safeText ++ token.safeText := by
    rw [put, text_append]
    simp [text]
  refine ⟨fun leaves => ?_, fun isOpened completes => ?_⟩
  · obtain ⟨clean, ends⟩ := settled.joined (Layout.webSafe.forToken token) written
      token.isWebSafe_safeText token.safe_or_not_straddles fun opener => by
        rcases opened opener with isOpened | brace
        · exact leaves isOpened
        · rw [brace]
          decide
    rw [← text_eq] at clean ends
    refine ⟨⟨clean, by rw [put]; rfl, by rw [put]; rfl, fun opener => ?_⟩, fun o => ends.1 o.1,
      fun e => ⟨ends.2 e, by rw [put]; exact pending⟩⟩
    rw [put] at opener ⊢
    exact lastInteger_append_of_opener written opener
  · rw [text_eq]
    exact settled.not_isWebSafe_joined (kept isOpened) _ completes

/-- After a semicolon that may be left out nothing is open. -/
theorem Clean.putOptionalSemicolon {s : Stream} (h : s.Clean) :
    (s.putOptionalSemicolon .webSafe).Clean ∧ ¬ (s.putOptionalSemicolon .webSafe).Opened := by
  have settled : (if s.pendingSemicolon then s.append [';'] else s).Clean := by
    split
    · exact h.semicolon.1
    · exact h
  exact ⟨⟨settled.clean, settled.noSpace, settled.noBreak, settled.word⟩,
    fun opened => by cases opened.2⟩

/-- What one instruction leads to that writes something. -/
theorem Clean.step_of_written {s : Stream} (h : s.Clean) {step : Step Token} {text : List Char}
    (written : step.safeText? = some text) :
    ((s.Opened → completesTag text = false) →
        (s.step .webSafe step).Clean ∧ ((s.step .webSafe step).Opened ↔ EndsInOpener text)) ∧
      (s.Opened → completesTag text = true → isWebSafe (s.step .webSafe step).text = false) := by
  obtain ⟨token, isToken, rfl, nonempty⟩ := Step.safeText?_eq_some_iff.1 written
  cases step with
  | put token =>
      cases isToken
      exact h.put nonempty
  | optionalSemicolon =>
      cases isToken
      obtain ⟨clean, covered⟩ := h.putOptionalSemicolon
      have same : (Token.text [';']).safeText = [';'] := by decide
      rw [same]
      exact ⟨fun _ => ⟨clean, fun opened => absurd opened covered, fun opener =>
        absurd opener (not_endsInOpener_of_plain (by decide))⟩, fun _ completes =>
          absurd completes (by decide)⟩
  | _ => cases isToken

/-- An instruction that writes nothing leaves open what was. -/
theorem Clean.step_of_blank {s : Stream} (h : s.Clean) {step : Step Token}
    (blank : step.safeText? = none) :
    (s.step .webSafe step).Clean ∧ ((s.step .webSafe step).Opened ↔ s.Opened) := by
  cases step with
  | put token =>
      have unchanged : s.put .webSafe token = s := by
        rw [put_webSafe, Step.safeText_eq_nil blank rfl]
        rfl
      show (s.put .webSafe token).Clean ∧ ((s.put .webSafe token).Opened ↔ s.Opened)
      rw [unchanged]
      exact ⟨h, Iff.rfl⟩
  | optionalSemicolon => cases blank
  | space | lineBreak => exact ⟨h, Iff.rfl⟩
  | indent | dedent => exact ⟨⟨h.clean, h.noSpace, h.noBreak, h.word⟩, Iff.rfl⟩

theorem Clean.isWebSafe_finish {s : Stream} (h : s.Clean) :
    isWebSafe (s.finish .webSafe) = true := by
  unfold finish
  dsimp only
  split
  · exact h.semicolon.1.clean
  · exact h.clean

/-- **What a whole run leads to** from a clean stream on: its text is safe exactly if nothing
makes a tag of an opener before it. -/
theorem Clean.isWebSafe_runFrom_iff {s : Stream} (h : s.Clean) (steps : List (Step Token)) :
    isWebSafe ((s.runFrom .webSafe steps).finish .webSafe) = true ↔
      (s.Opened → ∀ text ∈ (safeTexts steps).head?, completesTag text = false) ∧
        (safeTexts steps).IsChain LeavesOpen := by
  induction steps generalizing s with
  | nil =>
      refine iff_of_true h.isWebSafe_finish ⟨fun _ text first => ?_, .nil⟩
      cases first
  | cons step steps ih =>
      show isWebSafe (((s.step .webSafe step).runFrom .webSafe steps).finish .webSafe) = true ↔ _
      cases written : step.safeText? with
      | none =>
          obtain ⟨clean, opened⟩ := h.step_of_blank written
          have same : safeTexts (step :: steps) = safeTexts steps :=
            List.filterMap_cons_none written
          rw [ih clean, opened, same]
      | some text =>
          obtain ⟨goesOn, breaks⟩ := h.step_of_written written
          have first : safeTexts (step :: steps) = text :: safeTexts steps :=
            List.filterMap_cons_some written
          rw [first, List.isChain_cons]
          by_cases leaves : s.Opened → completesTag text = false
          · obtain ⟨clean, opened⟩ := goesOn leaves
            rw [ih clean, opened]
            constructor
            · rintro ⟨next, chain⟩
              refine ⟨fun isOpened y member => ?_, fun y member opener => next opener y member,
                chain⟩
              cases member
              exact leaves isOpened
            · rintro ⟨-, next, chain⟩
              exact ⟨fun opener y member => next y member opener, chain⟩
          · obtain ⟨isOpened, completes⟩ := Classical.not_imp.1 leaves
            refine iff_of_false (fun safe => ?_) fun chain => leaves fun isOpened =>
              chain.1 isOpened text rfl
            have broken := breaks isOpened (by simpa using completes)
            obtain ⟨rest, joined⟩ := prefix_finish_runFrom (s.step .webSafe step) .webSafe steps
            rw [← joined, isWebSafe_iff] at safe
            have front : isWebSafe (s.step .webSafe step).text = true :=
              isWebSafe_iff.2 ⟨fun c member => safe.1 c (List.mem_append_left _ member),
                safe.2.of_append⟩
            rw [broken] at front
            cases front

/-! ## Whole texts -/

/-- A blank gap consists of line feeds and spaces. -/
theorem forall_mem_gap {P : Char → Prop} (space : P ' ') {layout : Layout}
    (newLine : ∀ c ∈ layout.newLine, P c) (s : Stream) (token : List Char) :
    ∀ c ∈ s.gap layout token, P c := by
  intro c member
  unfold gap at member
  split at member
  · rcases List.mem_append.1 member with inBreak | inIndent
    · exact newLine c inBreak
    · rwa [(List.mem_replicate.1 inIndent).2]
  · split at member
    · rwa [List.mem_singleton.1 member]
    · cases member

/-- Safe output is ASCII, whatever the tokens are. -/
theorem isAscii_step {s : Stream} (h : ∀ c ∈ s.text, isAscii c = true ∧ c ≠ '\x00')
    (step : Step Token) :
    ∀ c ∈ (s.step .webSafe step).text, isAscii c = true ∧ c ≠ '\x00' := by
  have semicolon {t : Stream} (h : ∀ c ∈ t.text, isAscii c = true ∧ c ≠ '\x00') :
      ∀ c ∈ (t.append [';']).text, isAscii c = true ∧ c ≠ '\x00' := by
    rw [text_append]
    exact List.forall_mem_append.2 ⟨h, by decide⟩
  cases step with
  | put token =>
      show ∀ c ∈ (s.put .webSafe token).text, _
      have newLine : (Layout.webSafe.forToken token).newLine = ['\n'] := by
        cases token <;> rfl
      rw [put_webSafe]
      unfold writeToken
      split
      · exact h
      · have settled : ∀ c ∈ (s.settleSemicolon token.safeText).text,
            isAscii c = true ∧ c ≠ '\x00' := by
          unfold settleSemicolon
          split
          · dsimp only
            split
            · exact h
            · exact semicolon h
          · exact h
        rw [text_append]
        refine List.forall_mem_append.2 ⟨?_, (isWebSafe_iff.1 token.isWebSafe_safeText).1⟩
        have gap := forall_mem_gap (P := fun c => isAscii c = true ∧ c ≠ '\x00') (by decide)
          (by rw [newLine]; decide) (s.settleSemicolon token.safeText) token.safeText
        simp only [text, List.reverse_append, List.reverse_reverse]
        exact List.forall_mem_append.2 ⟨settled, gap⟩
  | optionalSemicolon =>
      show ∀ c ∈ (if s.pendingSemicolon then s.append [';'] else s).text, _
      split
      · exact semicolon h
      · exact h
  | _ => exact h

theorem isAscii_run (steps : List (Step Token)) :
    ∀ c ∈ run .webSafe steps, isAscii c = true ∧ c ≠ '\x00' := by
  have written : ∀ s : Stream, (∀ c ∈ s.text, isAscii c = true ∧ c ≠ '\x00') →
      ∀ c ∈ (s.runFrom .webSafe steps).text, isAscii c = true ∧ c ≠ '\x00' := by
    induction steps with
    | nil => exact fun s h => h
    | cons step steps ih => exact fun s h => ih _ (isAscii_step h step)
  have text := written start (by decide)
  unfold run finish
  dsimp only
  split
  · show ∀ c ∈ ((start.runFrom .webSafe steps).append [';']).text, _
    rw [text_append]
    exact List.forall_mem_append.2 ⟨text, by decide⟩
  · exact text

/-- **When the text of a safe stream is safe**: it is always ASCII without NUL, and it opens no
tag exactly if no token that ends in an opener is followed by one that makes a tag of it. -/
theorem isWebSafe_run_iff (steps : List (Step Token)) :
    (∀ c ∈ run .webSafe steps, isAscii c = true ∧ c ≠ '\x00') ∧
      (isWebSafe (run .webSafe steps) = true ↔ (safeTexts steps).IsChain LeavesOpen) := by
  refine ⟨isAscii_run steps, (clean_start.isWebSafe_runFrom_iff steps).trans ?_⟩
  exact and_iff_right fun opened => absurd opened not_opened_start

/-- A token that ends in an opener, and a word: the blank in between terminates the opener. -/
theorem not_isWebSafe_openerBeforeWord :
    run .webSafe [.put (.text "<script".toList), .put (.text ['x'])] = "<script x".toList ∧
      isWebSafe "<script x".toList = false := by
  decide

end Stream

/-! ## Sealed tokens -/

/-- A token that ends in an opener is followed by a backtick. -/
def Sealed : List Token → Prop
  | [] => True
  | token :: rest =>
      (EndsInOpener token.safeText → rest.head? = some (.text ['\x60'])) ∧ Sealed rest

theorem Sealed.append {l m : List Token} (left : Sealed l) (right : Sealed m) :
    Sealed (l ++ m) := by
  induction l with
  | nil => exact right
  | cons token rest ih =>
      refine ⟨fun opener => ?_, ih left.2⟩
      show (rest ++ m).head? = _
      rw [List.head?_append, left.1 opener]
      rfl

theorem sealed_singleton {token : Token} (closed : ¬ EndsInOpener token.safeText) :
    Sealed [token] := ⟨fun opener => absurd opener closed, trivial⟩

/-- A backtick makes no tag of an opener. -/
theorem Sealed.isChain {tokens : List Token} (h : Sealed tokens) :
    ((tokens.map Token.safeText).filter (· ≠ [])).IsChain LeavesOpen := by
  induction tokens with
  | nil => exact .nil
  | cons token rest ih =>
      obtain ⟨follows, later⟩ := h
      rw [List.map_cons, List.filter_cons]
      split
      · refine List.isChain_cons.2 ⟨fun text first opener => ?_, ih later⟩
        obtain ⟨more, rfl⟩ := List.head?_eq_some_iff.1 (follows opener)
        have same : (Token.text ['\x60']).safeText = ['\x60'] := by decide
        rw [List.map_cons, same] at first
        cases first
        decide
      · exact ih later

theorem safeTexts_eq (steps : List (Step Token)) :
    safeTexts steps = ((steps.filterMap Step.token?).map Token.safeText).filter (· ≠ []) := by
  induction steps with
  | nil => rfl
  | cons step steps ih =>
      cases written : step.token? with
      | none => simpa [safeTexts, Step.safeText?, written] using ih
      | some token =>
          rw [List.filterMap_cons_some written, List.map_cons, List.filter_cons, ← ih]
          split
          · rename_i nonempty
            exact List.filterMap_cons_some (Step.safeText?_eq_some_iff.2
              ⟨token, written, rfl, by simpa using nonempty⟩)
          · rename_i empty
            have blank : step.safeText? = none := by
              have nothing : token.safeText = [] := by simpa using empty
              simp [Step.safeText?, written, nothing, Option.filter]
            exact List.filterMap_cons_none blank

/-- **Safe output of sealed tokens is web-safe.** -/
theorem Stream.isWebSafe_run {steps : List (Step Token)}
    (h : Sealed (steps.filterMap Step.token?)) : isWebSafe (run .webSafe steps) = true := by
  refine (clean_start.isWebSafe_runFrom_iff steps).2
    ⟨fun opened => absurd opened not_opened_start, ?_⟩
  rw [safeTexts_eq]
  exact h.isChain

end EcmaScribe
