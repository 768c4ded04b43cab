/-
# EcmaScribe.Proofs.Lexical.Braces -- what is written as a closing brace

A stream leaves a semicolon out where the next token is a closing brace, and it looks at the text
of the token alone.  Of the lexemes of a program with proper names only braces and text of
templates are written like one (`Lexeme.Known.closes_of_brace`).  No lexeme but a blank one is
written as no text (`Lexeme.writtenText_eq_nil_iff`).
-/
import EcmaScribe.Proofs.Lexical.Prologue
import EcmaScribe.Proofs.WordSeparation

namespace EcmaScribe

set_option autoImplicit false

open Text Lexical

theorem Text.Respelled.ne_nil {t u : List Char} (respelled : Respelled t u) (written : t ≠ []) :
    u ≠ [] :=
  fun none => written (none ▸ respelled).eq_nil

/-- Text that is written, and does not start with a closing brace. -/
def NoBrace (text : List Char) : Prop := text ≠ [] ∧ text.head? ≠ some '\x7d'

theorem NoBrace.respelled {t u : List Char} (respelled : Respelled t u) (h : NoBrace t) :
    NoBrace u :=
  ⟨respelled.ne_nil h.1, (respelled.head?_eq_iff (by decide)).not.2 h.2⟩

theorem NoBrace.cons {c : Char} (other : c ≠ '\x7d') (text : List Char) : NoBrace (c :: text) :=
  ⟨nofun, fun first => other (Option.some.inj first)⟩

theorem Lexical.IsString.noBrace {text : List Char} (h : IsString text) : NoBrace text := by
  obtain ⟨quote, rest, rfl, rfl | rfl⟩ := h.head
  · exact .cons (by decide) _
  · exact .cons (by decide) _

theorem Text.sanitize_ne_nil {text : List Char} (written : text ≠ []) : sanitize text ≠ [] :=
  sanitize_keeps (P := (· ≠ [])) (fun _ _ respelled => respelled.ne_nil) written

/-- What the name of a variable starts with before it is sanitized. -/
theorem Text.exists_prepared (c : Char) (rest : List Char) :
    ∃ d tail, replaceAll (singleChar isAstral) escapeCodePoint (c :: rest) = d :: tail ∧
      (d = c ∨ d = '\\') := by
  cases astral : isAstral c with
  | true =>
      rw [replaceAll_of_some (m := ⟨[c], []⟩) (by simp [singleChar, astral])]
      exact ⟨'\\', _, rfl, .inr rfl⟩
  | false =>
      rw [replaceAll_of_none (by simp [singleChar, astral])]
      exact ⟨c, _, rfl, .inl rfl⟩

theorem Text.sanitizeName_ne_nil {name : List Char} (written : name ≠ []) :
    sanitizeName name ≠ [] := by
  obtain ⟨c, rest, rfl⟩ := List.exists_cons_of_ne_nil written
  obtain ⟨d, tail, prepared, -⟩ := exists_prepared c rest
  exact sanitize_ne_nil (by simp [prepared])

section Written

variable {k : IdentifierClass} {spelling : Spelling} {layout : Layout} {l : Lexeme}

theorem Lexeme.noBrace_of_spell {text : List Char} (spelled : l.spell spelling = .text text)
    (h : NoBrace text) : NoBrace (l.writtenText spelling layout) :=
  writtenText_keeps (fun _ _ respelled => .respelled respelled) spelled h

/-- Names start with a letter, or with an escape. -/
theorem noBrace_name (role : NameRole) {text : String} (isName : k.isName text.toList = true) :
    NoBrace ((Lexeme.name role text).writtenText spelling layout) := by
  refine Lexeme.noBrace_of_spell rfl ?_
  obtain ⟨c, rest, same⟩ : ∃ c rest, text.toList = c :: rest := by
    cases shape : text.toList with
    | nil => simp [shape, IdentifierClass.isName] at isName
    | cons c rest => exact ⟨c, rest, rfl⟩
  have other : c ≠ '\x7d' := by
    rintro rfl
    simp only [same, IdentifierClass.isName, Bool.and_eq_true] at isName
    rw [k.starts_eq_false (by decide) (by decide)] at isName
    cases isName.1
  have plain : NoBrace text.toList := same ▸ .cons other rest
  split
  · cases spelling with
    | plain => exact plain
    | webSafe =>
        obtain ⟨d, tail, prepared, first⟩ := exists_prepared c rest
        have noBrace : d ≠ '\x7d' := by
          rcases first with rfl | rfl
          · exact other
          · decide
        show NoBrace (sanitize (replaceAll (singleChar isAstral) escapeCodePoint text.toList))
        refine sanitize_keeps (fun _ _ respelled => .respelled respelled) ?_
        rw [same, prepared]
        exact .cons noBrace tail
  · exact plain

theorem noBrace_number (value : Double) :
    NoBrace ((Lexeme.number value).writtenText spelling layout) := by
  obtain ⟨c, rest, written, other⟩ := value.literal_head (P := (· ≠ '\x7d')) (by decide) (by decide)
    layout.compact
  have literal : (Lexeme.number value).writtenText spelling layout = c :: rest := written
  exact literal ▸ .cons other rest

theorem noBrace_quoted (value : String) :
    NoBrace ((Lexeme.quoted value).writtenText spelling layout) :=
  Lexeme.noBrace_of_spell rfl (isString_stringLiteral _).noBrace

theorem Leaf.Named.noBrace {leaf : Leaf} (named : leaf.Named k) (written : leaf.lexeme? = some l) :
    NoBrace (l.writtenText spelling layout) := by
  cases leaf with
  | name role text =>
      cases written
      exact noBrace_name role named
  | key value =>
      simp only [lexeme?, Option.some.injEq] at written
      subst written
      split
      · rename_i bare
        exact noBrace_name .key (named bare)
      · split
        · exact noBrace_number _
        · exact noBrace_quoted value
  | number value =>
      cases written
      exact noBrace_number value
  | string value =>
      cases written
      exact (isString_string value).noBrace
  | specifier value =>
      cases written
      exact noBrace_quoted value
  | regExp pattern flags =>
      cases written
      exact Lexeme.noBrace_of_spell rfl (.cons (by decide) _)
  | directive raw =>
      cases written
      refine Lexeme.noBrace_of_spell rfl ?_
      rcases directiveDelimiter_cases raw.toList with delimiter | delimiter
      all_goals
        simp only [Lexeme.directiveText, delimiter]
        exact .cons (by decide) _
  | template parts => cases written

/-- What is written for a blank lexeme. -/
theorem Lexeme.writtenText_of_isBlank (blank : l.isBlank = true) :
    l.writtenText spelling layout = [] := by
  have sanitized : sanitize [] = [] := by decide
  have written (layout : Layout) : (Token.text []).writtenText layout = [] := by
    simp [Token.writtenText, sanitized]
  cases l with
  | verbatim text =>
      rw [String.isEmpty_iff.1 blank]
      exact written layout
  | name role text =>
      rw [String.isEmpty_iff.1 blank]
      cases role <;> cases spelling <;> exact written layout
  | chunk follows leads raw =>
      simp only [isBlank, Bool.and_eq_true, Bool.not_eq_true', String.isEmpty_iff] at blank
      obtain ⟨⟨rfl, rfl⟩, rfl⟩ := blank
      cases spelling <;> exact written layout
  | _ => cases blank

/-- No layout makes the text of a lexeme vanish. -/
theorem Lexeme.writtenText_eq_nil_iff : l.writtenText spelling layout = [] ↔ l.isBlank = true := by
  refine ⟨fun none => ?_, writtenText_of_isBlank⟩
  have vanished {text : List Char} (spelled : l.spell spelling = .text text) : text = [] :=
    Decidable.byContradiction fun written => writtenText_keeps (P := (· ≠ []))
      (fun _ _ respelled => respelled.ne_nil) spelled written none
  cases l with
  | verbatim text => exact String.isEmpty_iff.2 (String.toList_eq_nil_iff.1 (vanished rfl))
  | name role text =>
      by_contra nonempty
      have written : text.toList ≠ [] := fun gone =>
        nonempty (String.isEmpty_iff.2 (String.toList_eq_nil_iff.1 gone))
      refine absurd (vanished rfl) ?_
      split
      · cases spelling with
        | plain => exact written
        | webSafe => exact sanitizeName_ne_nil written
      · exact written
  | chunk follows leads raw =>
      have parts : chunkText spelling follows leads raw.toList = [] := vanished rfl
      simp only [chunkText, List.append_eq_nil_iff, ite_eq_right_iff, reduceCtorEq, imp_false,
        Bool.not_eq_true] at parts
      obtain ⟨⟨first, inner⟩, last⟩ := parts
      have empty : raw.toList = [] := by
        cases spelling with
        | plain => exact inner
        | webSafe => exact Decidable.byContradiction fun written => sanitize_ne_nil written inner
      simp [isBlank, first, last, String.toList_eq_nil_iff.1 empty]
  | number value => exact absurd none (noBrace_number value).1
  | string value => exact absurd none (isString_string value).noBrace.1
  | quoted value => exact absurd none (noBrace_quoted value).1
  | regExp pattern flags => exact absurd (vanished rfl) (List.cons_ne_nil _ _)
  | directive raw => exact absurd (vanished rfl) (List.cons_ne_nil _ _)

theorem Lexeme.writtenText_ne_nil (written : l.isBlank = false) :
    l.writtenText spelling layout ≠ [] :=
  writtenText_eq_nil_iff.not.2 (by simp [written])

/-- What is written as a closing brace is one, or is text of a template. -/
theorem Lexeme.Known.closes_of_brace (h : l.Known (Leaf.Named k))
    (brace : l.writtenText spelling layout = ['\x7d']) :
    l = .verbatim "\x7d" ∨ (l.isChunk = true ∧ l.isBlank = false) := by
  have noBrace (h : NoBrace (l.writtenText spelling layout)) :
      l = .verbatim "\x7d" ∨ (l.isChunk = true ∧ l.isBlank = false) := absurd (brace ▸ rfl) h.2
  cases h with
  | leaf named written => exact noBrace (named.noBrace written)
  | infinity => exact noBrace (noBrace_number _)
  | @fixed text listed =>
      refine .inl (congrArg Lexeme.verbatim (String.toList_inj.1 ?_))
      refine Decidable.byContradiction fun differs => ?_
      exact Lexeme.writtenText_keeps (P := (· ≠ ['\x7d']))
        (fun _ _ respelled kept same => kept ((same ▸ respelled).eq_singleton (by decide))) rfl
        differs brace
  | chunk follows leads raw =>
      refine .inr ⟨rfl, Bool.eq_false_iff.2 fun blank => ?_⟩
      rw [writtenText_of_isBlank blank] at brace
      cases brace

end Written

end EcmaScribe
