/-
# EcmaScribe.Proofs.WebSafe -- the safe script of a program is safe

The safe stream keeps its promise as long as no token but the last text of a template ends in
a tag opener (`Sealed`).  Literals end in their delimiter, so strings, directives, regular
expressions and all template text but the last may hold anything.  Names are written without
a delimiter: a name with a `<` in it is what the promise excludes.
-/
import EcmaScribe.Proofs.Layout.Safety
import EcmaScribe.Proofs.Tree.Composed

namespace EcmaScribe

set_option autoImplicit false

open Text

/-! ## Promised leaves -/

/-- Chunks and substitutions in turn, with a chunk at either end. -/
inductive Node.Alternates : Node (.list .templatePart) → Prop
  | chunk (raw : String) : Alternates (.cons (.chunk raw) .nil)
  | more (raw : String) (expression : Expression) {rest : Node (.list .templatePart)}
      (tail : Alternates rest) :
      Alternates (.cons (.chunk raw) (.cons (.substitution expression) rest))

/-- Source text that leaves no tag opener at the end of a token. -/
def Leaf.Guarded : Leaf → Prop
  | name _ text => '<' ∉ text.toList
  | regExp _ flags => ∀ c ∈ flags.toList, c ∈ ['g', 'i', 'm', 's', 'u', 'y']
  | template parts => parts.Alternates
  | key _ | number _ | string _ | specifier _ | directive _ => True

/-! ## Tokens -/

/-- What safe output writes for a lexeme. -/
def Lexeme.safeText (l : Lexeme) : List Char := (l.spell .webSafe).safeText

/-- Sanitizing keeps an ending that cannot be the end of an opener. -/
theorem not_endsInOpener_sanitize {text : List Char} {c : Char} (last : text.getLast? = some c)
    (foreign : isAscii c = true ∧ c ≠ '\x00' ∧ c ≠ 't' ∧ c ≠ 'T') :
    ¬ EndsInOpener (sanitize text) :=
  not_endsInOpener_of_last (getLast?_sanitize foreign.1 foreign.2.1 last) foreign.2.2

theorem not_endsInOpener_sanitize_of_plain {text : List Char} (plain : '<' ∉ text) :
    ¬ EndsInOpener (sanitize text) :=
  not_endsInOpener_of_plain (not_mem_sanitize_of_not_mem plain)

/-- Whether a fixed text shows at a glance that it ends in no opener. -/
def plainlyClosed (text : String) : Bool :=
  !text.toList.contains '<' ||
    text.toList.getLast?.any fun c => isAscii c && c != '\x00' && c != 't' && c != 'T'

theorem closed_verbatim {text : String} (h : plainlyClosed text = true) :
    ¬ EndsInOpener (Lexeme.verbatim text).safeText := by
  simp only [plainlyClosed, Bool.or_eq_true, Bool.not_eq_true', List.contains_eq_mem,
    decide_eq_false_iff_not, Option.any_eq_true, Bool.and_eq_true, bne_iff_ne] at h
  show ¬ EndsInOpener (sanitize text.toList)
  rcases h with plain | ⟨c, last, ⟨⟨ascii, nonzero⟩, small⟩, capital⟩
  · exact not_endsInOpener_sanitize_of_plain plain
  · exact not_endsInOpener_sanitize last ⟨ascii, nonzero, small, capital⟩

theorem delimiter_foreign {c : Char} (h : c = '\x27' ∨ c = '\x22') :
    isAscii c = true ∧ c ≠ '\x00' ∧ c ≠ 't' ∧ c ≠ 'T' := by
  rcases h with rfl | rfl <;> decide

theorem getLast?_stringLiteral (value : List Char) :
    (stringLiteral value).getLast? = some (delimiterFor value) := List.getLast?_concat

theorem closed_quoted (value : String) : ¬ EndsInOpener (Lexeme.quoted value).safeText := by
  show ¬ EndsInOpener (sanitize (stringLiteral value.toList))
  exact not_endsInOpener_sanitize (getLast?_stringLiteral _)
    (delimiter_foreign (delimiterFor_cases value.toList))

theorem closed_string (value : String) : ¬ EndsInOpener (Lexeme.string value).safeText := by
  have foreign := delimiter_foreign (delimiterFor_cases value.toList)
  show ¬ EndsInOpener (sanitize (sanitize (stringLiteral value.toList)))
  exact not_endsInOpener_sanitize
    (getLast?_sanitize foreign.1 foreign.2.1 (getLast?_stringLiteral _)) foreign

theorem closed_directive (raw : String) : ¬ EndsInOpener (Lexeme.directive raw).safeText := by
  show ¬ EndsInOpener (sanitize (Lexeme.directiveText .webSafe raw.toList))
  exact not_endsInOpener_sanitize List.getLast?_concat
    (delimiter_foreign (directiveDelimiter_cases raw.toList))

theorem closed_regExp {pattern flags : String}
    (known : ∀ c ∈ flags.toList, c ∈ ['g', 'i', 'm', 's', 'u', 'y']) :
    ¬ EndsInOpener (Lexeme.regExp pattern flags).safeText := by
  have slash : (sanitize (pattern.toList ++ ['/'])).getLast? = some '/' :=
    getLast?_sanitize (by decide) (by decide) (by simp)
  show ¬ EndsInOpener (sanitize ('/' :: sanitize (pattern.toList ++ ['/']) ++ flags.toList))
  cases last : flags.toList.getLast? with
  | none =>
      refine not_endsInOpener_sanitize (c := '/') ?_ (by decide)
      rw [List.getLast?_append, last, Option.none_or, List.getLast?_cons, slash]
      rfl
  | some c =>
      have flag := known c (List.mem_of_getLast? last)
      refine not_endsInOpener_sanitize (c := c) (by rw [List.getLast?_append, last]; rfl) ?_
      exact (show ∀ c ∈ ['g', 'i', 'm', 's', 'u', 'y'],
        isAscii c = true ∧ c ≠ '\x00' ∧ c ≠ 't' ∧ c ≠ 'T' from by decide) c flag

theorem not_mem_sanitizeName_of_not_mem {name : List Char} (plain : '<' ∉ name) :
    '<' ∉ sanitizeName name := by
  have escaped : ∀ d ∈ replaceAll (singleChar isAstral) escapeCodePoint name, d ≠ '<' := by
    refine forall_mem_replaceAll (Q := fun d => d ≠ '<') (fun c rest _ ok => ok) ?_ name
      fun d member same => plain (same ▸ member)
    intro c rest m _ _ d member
    obtain ⟨astral, -, inEscape⟩ := List.mem_flatMap.1 member
    simp only [List.mem_append] at inEscape
    rcases inEscape with (opening | digit) | closing
    · exact (show ∀ d ∈ ['\\', 'u', '\x7b'], d ≠ '<' from by decide) d opening
    · exact forall_mem_hexDigit (P := fun d => d ≠ '<') (by decide) _ _ d digit
    · rw [List.mem_singleton.1 closing]
      decide
  exact not_mem_sanitize_of_not_mem fun member => escaped _ member rfl

theorem closed_name {role : NameRole} {text : String} (plain : '<' ∉ text.toList) :
    ¬ EndsInOpener (Lexeme.name role text).safeText := by
  show ¬ EndsInOpener (sanitize (if role.isVariable then sanitizeName text.toList else text.toList))
  split
  · exact not_endsInOpener_sanitize_of_plain (not_mem_sanitizeName_of_not_mem plain)
  · exact not_endsInOpener_sanitize_of_plain plain

theorem not_mem_of_isIdentifierName {text : List Char} (h : isIdentifierName text = true) :
    '<' ∉ text := by
  cases text with
  | nil => simp
  | cons first rest =>
      simp only [isIdentifierName, Bool.and_eq_true, List.all_eq_true] at h
      intro member
      rcases List.mem_cons.1 member with rfl | later
      · exact absurd h.1 (by decide)
      · exact absurd (h.2 _ later) (by decide)

/-- A leaf that is guarded is written as a token that ends in no opener. -/
theorem Leaf.Guarded.closed {leaf : Leaf} (h : leaf.Guarded) {l : Lexeme}
    (written : leaf.lexeme? = some l) : ¬ EndsInOpener l.safeText := by
  cases leaf with
  | name role text => cases written; exact closed_name h
  | key value =>
      simp only [Leaf.lexeme?, Option.some.injEq] at written
      subst written
      split
      · rename_i bare
        exact closed_name (not_mem_of_isIdentifierName bare)
      · split
        · exact (isWebSafe_literal _).2.1
        · exact closed_quoted value
  | number value => cases written; exact (isWebSafe_literal value).2.1
  | string value => cases written; exact closed_string value
  | specifier value => cases written; exact closed_quoted value
  | regExp pattern flags => cases written; exact closed_regExp h
  | directive raw => cases written; exact closed_directive raw
  | template parts => cases written

/-! ## Scripts -/

/-- Text before a substitution ends in the opening brace. -/
theorem closed_chunk (follows : Bool) (raw : String) :
    ¬ EndsInOpener (Lexeme.chunk follows true raw).safeText := by
  show ¬ EndsInOpener (sanitize (Lexeme.chunkText .webSafe follows true raw.toList))
  refine not_endsInOpener_sanitize (c := '\x7b') ?_ (by decide)
  rw [Lexeme.chunkText, List.getLast?_append]
  rfl

theorem countP_isText_more (raw : String) (f : Fragment) (pieces : List Fragment.TemplatePiece) :
    (.text raw :: .code f :: pieces).countP Fragment.TemplatePiece.isText =
      pieces.countP Fragment.TemplatePiece.isText + 1 := by
  rw [List.countP_cons_of_pos rfl, List.countP_cons_of_neg (by simp [Fragment.TemplatePiece.isText])]

theorem Node.Alternates.countP_pos {parts : Node (.list .templatePart)} (h : parts.Alternates) :
    0 < parts.fragment.countP Fragment.TemplatePiece.isText := by
  cases h with
  | chunk raw => exact Nat.one_pos
  | more raw expression tail =>
      rw [show (Node.cons (.chunk raw) (.cons (.substitution expression) _)).fragment =
        .text raw :: .code expression.fragment :: _ from rfl, countP_isText_more]
      exact Nat.succ_pos _

/-- The last text of a template is the one token that may end in an opener, and the backtick
follows it. -/
theorem sealed_pieces {parts : Node (.list .templatePart)} (h : parts.Alternates) {b : Bool}
    (substitutions : ∀ f, .code f ∈ parts.fragment →
      Sealed ((f.lexemes b).map (Lexeme.spell .webSafe))) (done : Nat) :
    Sealed (((Fragment.TemplatePiece.fragments
      (parts.fragment.countP Fragment.TemplatePiece.isText + done) done parts.fragment).flatMap
        (Fragment.lexemes b) ++ [Lexeme.verbatim "\x60"]).map (Lexeme.spell .webSafe)) := by
  induction h generalizing done with
  | chunk raw =>
      have backtick : Sealed [(Lexeme.verbatim "\x60").spell .webSafe] :=
        sealed_singleton (closed_verbatim (by decide))
      have last : ¬ done + 1 < 1 + done := by omega
      show Sealed ((Lexeme.chunk _ (decide (done + 1 < 1 + done)) raw).spell .webSafe ::
        [(Lexeme.verbatim "\x60").spell .webSafe])
      exact ⟨fun _ => rfl, backtick⟩
  | more raw expression tail ih =>
      rename_i rest
      have fragments : (Node.cons (.chunk raw) (.cons (.substitution expression) rest)).fragment =
        .text raw :: .code expression.fragment :: rest.fragment := rfl
      rw [fragments] at substitutions ⊢
      have chunks := tail.countP_pos
      have later := ih (fun f member => substitutions f (by simp [member])) (done + 1)
      have code := substitutions expression.fragment (by simp)
      have leads : decide (done + 1 < rest.fragment.countP Fragment.TemplatePiece.isText + 1 + done) =
          true := decide_eq_true (by omega)
      rw [countP_isText_more]
      simp only [Fragment.TemplatePiece.fragments, leads, List.flatMap_cons, Fragment.lexemes_lexeme,
        List.cons_append, List.nil_append, List.append_assoc, List.map_cons]
      refine ⟨fun opener => absurd opener (closed_chunk _ raw), ?_⟩
      rw [List.map_append]
      refine code.append ?_
      rwa [Nat.add_assoc, Nat.add_comm 1 done]

/-- Lexemes composed from guarded leaves are sealed. -/
theorem Composed.sealed {s : Standing} {b : Bool} {l : List Lexeme}
    (h : Composed Leaf.Guarded s b l) : Sealed (l.map (Lexeme.spell .webSafe)) := by
  have fixed {text : String} (plain : plainlyClosed text = true) :
      Sealed [(Lexeme.verbatim text).spell .webSafe] := sealed_singleton (closed_verbatim plain)
  have words : ∀ text ∈ finishedTexts, plainlyClosed text = true := by decide
  have infixes : ∀ text ∈ infixTexts, plainlyClosed text = true := by decide
  have prefixes : ∀ text ∈ prefixTexts, plainlyClosed text = true := by decide
  have enclosed (opening closing : String) (left : plainlyClosed opening = true)
      (right : plainlyClosed closing = true) {m : List Lexeme}
      (inner : Sealed (m.map (Lexeme.spell .webSafe))) :
      Sealed ((Lexeme.verbatim opening :: m ++ [Lexeme.verbatim closing]).map
        (Lexeme.spell .webSafe)) := by
    rw [List.map_append, List.map_cons, ← List.singleton_append]
    exact ((fixed left).append inner).append (fixed right)
  induction h with
  | nil => trivial
  | append _ _ left right => rw [List.map_append]; exact left.append right
  | operand _ ih => exact ih
  | andThen _ _ left right => rw [List.map_append]; exact left.append right
  | leaf admitted written => exact sealed_singleton (admitted.closed written)
  | infinity => exact sealed_singleton (isWebSafe_literal _).2.1
  | word text finished => exact fixed (words text finished)
  | prefixed text operator _ ih =>
      rw [List.map_cons, ← List.singleton_append]
      exact (fixed (prefixes text operator)).append ih
  | infixed operator _ _ left right =>
      rw [List.map_append, List.map_cons, ← List.singleton_append]
      exact left.append ((fixed (infixes _ operator)).append right)
  | isIn _ _ left right =>
      rw [List.map_append, List.map_cons, ← List.singleton_append]
      exact left.append ((fixed (by decide)).append right)
  | starred _ ih =>
      rw [List.map_cons, ← List.singleton_append]
      exact (fixed (by decide)).append ih
  | member admitted _ ih =>
      rw [List.map_append]
      exact ih.append ((fixed (by decide)).append (sealed_singleton (closed_name admitted)))
  | newTarget =>
      exact (fixed (by decide)).append ((fixed (by decide)).append (fixed (by decide)))
  | paren _ ih => exact enclosed "(" ")" (by decide) (by decide) ih
  | bracket _ ih => exact enclosed "[" "]" (by decide) (by decide) ih
  | brace _ ih => exact enclosed "\x7b" "\x7d" (by decide) (by decide) ih
  | template admitted _ ih =>
      have opening : Sealed [(Lexeme.verbatim "\x60").spell .webSafe] := fixed (by decide)
      rw [Fragment.lexemes_template]
      exact opening.append (sealed_pieces admitted ih 0)

/-- **The safe script of a program is web-safe** when names hold no `<`, flags are known, and
templates alternate; all other text is arbitrary. -/
theorem isWebSafe_webSafe {program : Program} (guarded : ∀ leaf ∈ program.leaves, leaf.Guarded) :
    isWebSafe program.webSafe = true := by
  have composed : Fragment.Phrase Leaf.Guarded program.fragment := program.composed guarded
  refine Stream.isWebSafe_run ?_
  show Sealed (program.fragment.writtenTokens .webSafe false)
  rw [Fragment.writtenTokens_eq]
  exact (composed false).sealed

/-- Openers inside a directive and a template, and one that a comparison with a regular
expression would spell. -/
def programWithOpeners : Program :=
  .script (.cons (.directive "</script >") .nil)
    (.cons (.evaluate (.binary (.identifier (.usedName "x")) .lessThan (.regExp "script>" "i")))
      (.cons (.evaluate (.template .none (.cons (.chunk "<script") .nil))) .nil))

theorem isWebSafe_programWithOpeners : (∀ leaf ∈ programWithOpeners.leaves, leaf.Guarded) ∧
    isWebSafe programWithOpeners.webSafe = true := by
  have guarded : ∀ leaf ∈ programWithOpeners.leaves, leaf.Guarded := by
    show ∀ leaf ∈ [Leaf.directive "</script >", .name .used "x", .regExp "script>" "i",
      .template (.cons (.chunk "<script") .nil)], leaf.Guarded
    have name : '<' ∉ "x".toList := by decide
    have flags : ∀ c ∈ "i".toList, c ∈ ['g', 'i', 'm', 's', 'u', 'y'] := by decide
    simp only [List.forall_mem_cons]
    exact ⟨trivial, name, flags, .chunk _, by simp⟩
  exact ⟨guarded, isWebSafe_webSafe guarded⟩

end EcmaScribe
