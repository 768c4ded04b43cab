/-
# EcmaScribe.Proofs.Text.Sanitize -- what the sanitizer leaves in a text

The passes run in order and each keeps what the ones before it have established: after
`nul` there is no NUL, after `nonAscii` every character is ASCII, and `scriptTag` leaves no
terminated opener (`isWebSafe_sanitize`).  The last point needs an argument, because the
scan goes on behind a match in the text it was given, while the claim is about the text
written: the two agree up to the next `<` (`Agree`), and an opener holds only one.

Besides, no pass writes a `<` of its own, and a last character that is ASCII stays last.
-/
import EcmaScribe.Proofs.Text.Backslashes
import EcmaScribe.Proofs.Text.ScriptTag

namespace EcmaScribe.Text

set_option autoImplicit false

/-! ## Characters that a scan writes -/

theorem forall_mem_replaceAll {pattern : Pattern} {replacement : Match → List Char}
    {P Q : Char → Prop} (copied : ∀ c rest, pattern (c :: rest) = none → Q c → P c)
    (matched : ∀ c rest m, pattern (c :: rest) = some m → (∀ d ∈ c :: rest, Q d) →
      ∀ d ∈ replacement m, P d)
    (text : List Char) (given : ∀ d ∈ text, Q d) :
    ∀ d ∈ replaceAll pattern replacement text, P d := by
  refine replaceAll_induction pattern replacement
    (motive := fun text out => (∀ d ∈ text, Q d) → ∀ d ∈ out, P d) ?_ ?_ ?_ text given
  · simp
  · intro c rest missed ih given d member
    rcases List.mem_cons.1 member with rfl | later
    · exact copied d rest missed (given d (by simp))
    · exact ih (fun e he => given e (by simp [he])) d later
  · intro c rest m found ih given d member
    rcases List.mem_append.1 member with now | later
    · exact matched c rest m found given d now
    · exact ih (fun e he => given e (List.mem_cons_of_mem _ (List.mem_of_mem_drop he))) d later

theorem forall_mem_hexDigit {P : Char → Prop} (digits : ∀ value < 16, P (hexDigit .upper value))
    (width n : Nat) : ∀ d ∈ hexFixed .upper width n, P d := by
  induction width generalizing n with
  | zero => simp [hexFixed]
  | succ width ih =>
      intro d member
      rcases List.mem_append.1 member with front | last
      · exact ih (n / 16) d front
      · rw [List.mem_singleton.1 last]
        exact digits _ (Nat.mod_lt _ (by decide))

/-- What holds of the characters of an escape holds of every escaped character. -/
theorem forall_mem_escapeUnits {P : Char → Prop} (backslash : P '\\') (letter : P 'u')
    (digits : ∀ value < 16, P (hexDigit .upper value)) (c : Char) : ∀ d ∈ escapeUnits c, P d := by
  intro d member
  obtain ⟨unit, -, inUnit⟩ := List.mem_flatMap.1 member
  simp only [List.mem_cons] at inUnit
  rcases inUnit with rfl | rfl | digit
  · exact backslash
  · exact letter
  · exact forall_mem_hexDigit digits 4 unit d digit

/-! ## The passes that look for a character -/

theorem mem_keptBackslashes {run : List Char} {d : Char} (h : d ∈ keptBackslashes run) :
    d ∈ run := by
  unfold keptBackslashes at h
  split at h
  · exact List.dropLast_subset run h
  · exact h

theorem forall_mem_nulPass {P : Char → Prop} (backslash : P '\\') (escape : ∀ d ∈ ['x', '0'], P d)
    {text : List Char} (given : ∀ d ∈ text, d ≠ '\x00' → P d) : ∀ d ∈ nulPass.apply text, P d := by
  refine forall_mem_replaceAll (Q := fun d => d ≠ '\x00' → P d) ?_ ?_ text given
  · intro c rest missed ok
    by_cases plain : c = '\\'
    · exact plain ▸ backslash
    · exact ok (by simpa [isNul] using not_isMember_of_afterBackslashes missed plain)
  · intro c rest m found ok d member
    obtain ⟨run, e, after, joined, backslashes, -, rfl⟩ := afterBackslashes_eq_some found
    rcases List.mem_append.1 member with kept | new
    · exact backslashes d (mem_keptBackslashes kept) ▸ backslash
    · simp only [List.mem_cons, List.not_mem_nil, or_false] at new
      rcases new with rfl | rfl | rfl | rfl
      · exact backslash
      · exact escape _ (by simp)
      · exact escape _ (by simp)
      · exact escape _ (by simp)

theorem forall_mem_nonAsciiPass {P : Char → Prop} (backslash : P '\\') (letter : P 'u')
    (lineFeed : P '\n') (digits : ∀ value < 16, P (hexDigit .upper value)) {text : List Char}
    (given : ∀ d ∈ text, isAscii d = true → P d) : ∀ d ∈ nonAsciiPass.apply text, P d := by
  refine forall_mem_replaceAll (Q := fun d => isAscii d = true → P d) ?_ ?_ text given
  · intro c rest missed ok
    by_cases plain : c = '\\'
    · exact plain ▸ backslash
    · exact ok (by simpa using not_isMember_of_afterBackslashes missed plain)
  · intro c rest m found ok d member
    obtain ⟨run, e, after, joined, backslashes, -, rfl⟩ := afterBackslashes_eq_some found
    simp only [nonAsciiPass, escapeNonAscii] at member
    split at member
    · rcases List.mem_append.1 member with kept | new
      · exact backslashes d kept ▸ backslash
      · exact List.mem_singleton.1 new ▸ lineFeed
    · rcases List.mem_append.1 member with kept | new
      · exact backslashes d (mem_keptBackslashes kept) ▸ backslash
      · obtain ⟨f, -, inEscape⟩ := List.mem_flatMap.1 new
        exact forall_mem_escapeUnits backslash letter digits f d inEscape

/-! ## The pass that breaks tags -/

/-- A match is an opener with its terminator, and `defeatScriptTag` spells the first letter of
its name as an escape. -/
theorem scriptTag_eq_some {text : List Char} {m : Match} (h : scriptTag text = some m) :
    ∃ slash s name rest, IsSlash slash ∧ text = '<' :: (slash ++ s :: (name ++ rest)) ∧
      name.length = 6 ∧ '<' ∉ name ∧ m = ⟨'<' :: slash ++ s :: name, [slash, [s], name]⟩ := by
  obtain ⟨slash, s, tail, c, isSlash, joined, word, place, terminator, written⟩ :=
    scriptTag_eq_some_iff.1 h
  have long : 5 < tail.length := (List.getElem?_eq_some_iff.1 place).1
  refine ⟨slash, s, tail.take 6, tail.drop 6, isSlash, by simp [joined],
    by rw [List.length_take]; omega, ?_, written⟩
  rw [List.take_add_one, place]
  intro member
  rcases List.mem_append.1 member with inWord | last
  · obtain ⟨k, hk, same⟩ := List.mem_iff_getElem.1 inWord
    rw [List.length_take] at hk
    refine getElem?_ne_of_startsWithWord (c := '<') word (by decide) (k + 1)
      (by simp [scriptWord]; omega) ?_
    rw [List.getElem?_cons_succ, ← same, List.getElem_take]
    exact List.getElem?_eq_getElem _
  · rw [← List.mem_singleton.1 last] at terminator
    simp [endsTagName] at terminator

theorem defeatScriptTag_eq (slash : List Char) (s : Char) (name : List Char) :
    ∃ digits, '<' ∉ digits ∧ (∀ d ∈ digits, d ∈ ['x', '5', '7', '3']) ∧
      defeatScriptTag ⟨'<' :: slash ++ s :: name, [slash, [s], name]⟩ =
        '<' :: (slash ++ '\\' :: (digits ++ name)) := by
  by_cases upper : s = 'S'
  · exact ⟨['x', '5', '3'], by decide, by decide, by simp [defeatScriptTag, Match.group, upper]⟩
  · exact ⟨['x', '7', '3'], by decide, by decide, by simp [defeatScriptTag, Match.group, upper]⟩

/-- Two texts agree up to the first `<` of the second. -/
def Agree (text out : List Char) : Prop :=
  ∀ k, (∀ i < k, out[i]? ≠ some '<') → out.take k = text.take k

theorem agree_cons {c : Char} {text out : List Char} (h : Agree text out) :
    Agree (c :: text) (c :: out) := by
  intro k plain
  cases k with
  | zero => rfl
  | succ k => simp [h k fun i hi => by simpa using plain (i + 1) (by omega)]

theorem agree_angle (text out : List Char) : Agree text ('<' :: out) := by
  intro k plain
  cases k with
  | zero => simp
  | succ k => simpa using plain 0 (by omega)

/-- Where no opener starts before the seam, a tag-free text stays so. -/
theorem tagFree_append_of_no_opener {left right : List Char} (rightFree : TagFree right)
    (closed : ∀ i < left.length, openerLength? ((left ++ right).drop i) = none) :
    TagFree (left ++ right) := by
  intro i n c opener place
  by_cases inside : i < left.length
  · rw [closed i inside] at opener
    cases opener
  · rw [List.drop_append, List.drop_of_length_le (by omega), List.nil_append] at opener
    rw [List.getElem?_append_right (by omega)] at place
    exact rightFree (i - left.length) n c opener (by rw [← place]; congr 1; omega)

/-- An opener starts with `<`. -/
theorem openerLength?_eq_none_of_head {text : List Char} (h : text.head? ≠ some '<') :
    openerLength? text = none := by
  cases opener : openerLength? text with
  | none => rfl
  | some n =>
      obtain ⟨slash, rest, -, rfl, -⟩ := openerLength?_eq_some_iff.1 opener
      simp at h

/-- A broken tag opens nothing: behind its `<` comes a backslash. -/
theorem openerLength?_broken {slash : List Char} (isSlash : IsSlash slash) (rest : List Char) :
    openerLength? ('<' :: (slash ++ '\\' :: rest)) = none := by
  cases opener : openerLength? ('<' :: (slash ++ '\\' :: rest)) with
  | none => rfl
  | some n =>
      obtain ⟨slash', tail, isSlash', joined, word, -⟩ := openerLength?_eq_some_iff.1 opener
      rcases isSlash with rfl | rfl <;> rcases isSlash' with rfl | rfl <;>
        simp only [List.nil_append, List.cons_append, List.cons.injEq, true_and,
          Char.reduceEq, false_and] at joined <;>
        subst joined <;> simp [startsWithWord, scriptWord, isLetter] at word

/-- A copied character opens no terminated tag: up to a terminator the output would hold no
`<`, so the same tag would stand in the text. -/
theorem tagFree_copied {c : Char} {rest out : List Char} (missed : scriptTag (c :: rest) = none)
    (agree : Agree rest out) (free : TagFree out) : TagFree (c :: out) := by
  intro i n d opener place
  cases i with
  | succ i => exact free i n d opener (by rwa [Nat.add_right_comm] at place)
  | zero =>
      rw [List.drop_zero] at opener
      rw [Nat.zero_add] at place
      by_contra terminated
      simp only [Bool.not_eq_false] at terminated
      obtain ⟨long, -, fits⟩ := length_le_of_openerLength? opener
      obtain ⟨p, rfl⟩ : ∃ p, n = p + 1 := ⟨n - 1, by omega⟩
      rw [List.getElem?_cons_succ] at place
      have same := agree (p + 1) fun k hk => by
        by_cases atEnd : k = p
        · rw [atEnd, place, ne_eq, Option.some.injEq]
          rintro rfl
          simp [endsTagName] at terminated
        · exact getElem?_ne_of_openerLength? opener k (by omega)
      have sameName : out.take p = rest.take p := by
        simpa [List.take_take] using congrArg (List.take p) same
      have opener' : openerLength? (c :: rest) = some (p + 1) := by
        have cut : openerLength? (c :: out.take p) = some (p + 1) := by
          have whole : openerLength? ((c :: out.take p) ++ out.drop p) = some (p + 1) := by
            simpa using opener
          exact openerLength?_of_append whole (by simp at fits ⊢; omega)
        rw [sameName] at cut
        simpa using openerLength?_append (rest.drop p) cut
      have place' : (c :: rest)[p + 1]? = some d := by
        rw [List.getElem?_cons_succ, ← place]
        simpa [List.getElem?_take] using (congrArg (fun l => l[p]?) same).symm
      have : (scriptTag (c :: rest)).isSome = true :=
        scriptTag_isSome_iff.2 ⟨p + 1, d, opener', place', terminated⟩
      simp [missed] at this

theorem tagFree_broken {slash digits name out : List Char} (isSlash : IsSlash slash)
    (noAngle : '<' ∉ digits) (plain : '<' ∉ name) (free : TagFree out) :
    TagFree ('<' :: (slash ++ '\\' :: (digits ++ name)) ++ out) := by
  refine tagFree_append_of_no_opener free fun i inside => ?_
  cases i with
  | zero =>
      simp only [List.drop_zero, List.cons_append, List.append_assoc]
      exact openerLength?_broken isSlash _
  | succ i =>
      refine openerLength?_eq_none_of_head ?_
      rw [List.cons_append, List.drop_succ_cons, List.head?_drop,
        List.getElem?_append_left (by simpa using inside)]
      intro angle
      have member := List.mem_of_getElem? angle
      simp only [List.mem_append, List.mem_cons] at member
      rcases member with inSlash | impossible | inDigits | inName
      · rcases isSlash with rfl | rfl <;> simp at inSlash
      · simp at impossible
      · exact noAngle inDigits
      · exact plain inName

theorem tagFree_scriptTagPass (text : List Char) : TagFree (scriptTagPass.apply text) := by
  refine (replaceAll_induction scriptTag defeatScriptTag
    (motive := fun text out => Agree text out ∧ TagFree out) ?_ ?_ ?_ text).2
  · exact ⟨fun k _ => rfl, tagFree_nil⟩
  · rintro c rest missed ⟨agree, free⟩
    exact ⟨agree_cons agree, tagFree_copied missed agree free⟩
  · rintro c rest m found ⟨-, free⟩
    obtain ⟨slash, s, name, after, isSlash, joined, -, plain, rfl⟩ := scriptTag_eq_some found
    obtain ⟨digits, noAngle, -, written⟩ := defeatScriptTag_eq slash s name
    rw [written]
    refine ⟨?_, tagFree_broken isSlash noAngle plain free⟩
    rw [(List.cons.inj joined).1, List.cons_append]
    exact agree_angle _ _

theorem forall_mem_scriptTagPass {P : Char → Prop} (backslash : P '\\')
    (digits : ∀ d ∈ ['x', '5', '7', '3'], P d) {text : List Char} (given : ∀ d ∈ text, P d) :
    ∀ d ∈ scriptTagPass.apply text, P d := by
  refine forall_mem_replaceAll (Q := P) (fun c rest _ ok => ok) ?_ text given
  intro c rest m found ok d member
  obtain ⟨slash, s, name, after, -, joined, -, -, rfl⟩ := scriptTag_eq_some found
  obtain ⟨escape, -, ofDigits, written⟩ := defeatScriptTag_eq slash s name
  rw [joined] at ok
  simp only [scriptTagPass, written, List.mem_cons, List.mem_append] at member
  rcases member with rfl | inSlash | rfl | inDigits | inName
  · exact ok _ (by simp)
  · exact ok d (by simp [inSlash])
  · exact backslash
  · exact digits d (ofDigits d inDigits)
  · exact ok d (by simp [inName])

/-- The terminator of a tag is written again, so the pass never changes how a text ends. -/
theorem getLast?_scriptTagPass (text : List Char) :
    (scriptTagPass.apply text).getLast? = text.getLast? := by
  refine replaceAll_induction scriptTag defeatScriptTag
    (motive := fun text out => out.getLast? = text.getLast?) ?_ ?_ ?_ text
  · rfl
  · intro c rest _ ih
    rw [List.getLast?_cons, List.getLast?_cons, ih]
  · intro c rest m found ih
    obtain ⟨slash, s, name, after, isSlash, joined, six, -, rfl⟩ := scriptTag_eq_some found
    obtain ⟨digits, -, -, written⟩ := defeatScriptTag_eq slash s name
    have rest_eq : rest.drop (('<' :: slash ++ s :: name).length - 1) = after := by
      rw [(List.cons.inj joined).2]
      simp [List.drop_append, List.drop_of_length_le]
    have nonempty : name ≠ [] := by
      rintro rfl
      simp at six
    obtain ⟨front, last, rfl⟩ : ∃ front last, name = front ++ [last] :=
      ⟨_, _, (List.dropLast_concat_getLast nonempty).symm⟩
    rw [rest_eq] at ih ⊢
    rw [written, joined]
    cases after with
    | nil => simp [List.getLast?_cons, List.getLast?_append]
    | cons d after => simp [List.getLast?_append, List.getLast?_cons, ih]

/-! ## The whole pipeline -/

theorem sanitize_eq (text : List Char) :
    sanitize text = scriptTagPass.apply (nonAsciiPass.apply (nulPass.apply text)) := rfl

/-- What the escapes consist of and what the text already has, without the characters that are
escaped for their own sake. -/
theorem forall_mem_sanitize {P : Char → Prop} (backslash : P '\\') (lineFeed : P '\n')
    (escapes : ∀ d ∈ ['x', 'u', '0', '5', '7', '3'], P d)
    (digits : ∀ value < 16, P (hexDigit .upper value)) {text : List Char}
    (given : ∀ d ∈ text, isAscii d = true → d ≠ '\x00' → P d) : ∀ d ∈ sanitize text, P d := by
  have tagEscapes : ['x', '5', '7', '3'] ⊆ ['x', 'u', '0', '5', '7', '3'] := by decide
  have nulEscapes : ['x', '0'] ⊆ ['x', 'u', '0', '5', '7', '3'] := by decide
  rw [sanitize_eq]
  refine forall_mem_scriptTagPass backslash (fun d hd => escapes d (tagEscapes hd)) ?_
  refine forall_mem_nonAsciiPass backslash (escapes 'u' (by simp)) lineFeed digits ?_
  refine forall_mem_nulPass (P := fun d => isAscii d = true → P d) (fun _ => backslash)
    (fun d hd _ => escapes d (nulEscapes hd)) ?_
  exact fun d hd nonzero ascii => given d hd ascii nonzero

/-- **Sanitized text is safe.** -/
theorem isWebSafe_sanitize (text : List Char) : isWebSafe (sanitize text) = true := by
  have clean : ∀ d ∈ sanitize text, isAscii d = true ∧ d ≠ '\x00' :=
    forall_mem_sanitize (by decide) (by decide) (by decide) (by decide)
      fun d _ ascii nonzero => ⟨ascii, nonzero⟩
  have free : occurs scriptTag (sanitize text) = false :=
    occurs_scriptTag_eq_false_iff.2 (tagFree_scriptTagPass _)
  simp only [isWebSafe, free, Bool.not_false, Bool.and_true, Bool.and_eq_true, List.all_eq_true,
    Bool.not_eq_true', List.contains_eq_mem, decide_eq_false_iff_not]
  exact ⟨fun d hd => (clean d hd).1, fun zero => (clean _ zero).2 rfl⟩

/-- No pass writes a `<` of its own. -/
theorem not_mem_sanitize_of_not_mem {text : List Char} (plain : '<' ∉ text) :
    '<' ∉ sanitize text := by
  have clean : ∀ d ∈ sanitize text, d ≠ '<' :=
    forall_mem_sanitize (by decide) (by decide) (by decide) (by decide)
      fun d hd _ _ same => plain (same ▸ hd)
  exact fun member => clean _ member rfl

/-- A last character that needs no escape stays the last one. -/
theorem getLast?_sanitize {text : List Char} {c : Char} (ascii : isAscii c = true)
    (nonzero : c ≠ '\x00') (last : text.getLast? = some c) :
    (sanitize text).getLast? = some c := by
  rw [sanitize_eq, getLast?_scriptTagPass]
  refine getLast?_replaceAll_afterBackslashes (by simp [ascii]) ?_
  exact getLast?_replaceAll_afterBackslashes (by simp [isNul, nonzero]) last

end EcmaScribe.Text
