/-
# EcmaScribe.Proofs.Text.Identifier -- identifiers of the language

Which characters beyond ASCII may start or continue an identifier is settled by the Unicode
tables of the reader of a script, so a result about identifiers is stated for every class of
characters that agrees with the language on ASCII.  The tables that decide whether a property
key is written bare are one such class.
-/
import EcmaScribe.Proofs.Text.Character

namespace EcmaScribe

set_option autoImplicit false

open Text

/-- The characters of identifiers. -/
structure IdentifierClass where
  starts : Char → Bool
  continues : Char → Bool
  starts_ascii : ∀ c, isAscii c = true → starts c = (c.isAlpha || c = '$' || c = '_')
  continues_ascii : ∀ c, isAscii c = true → continues c = (c.isAlphanum || c = '$' || c = '_')
  continues_of_starts : ∀ c, starts c = true → continues c = true

/-- The words that name no variable; `await` and `yield` are among them wherever they stand. -/
def reservedWords : List String :=
  ["await", "break", "case", "catch", "class", "const", "continue", "debugger", "default",
    "delete", "do", "else", "enum", "export", "extends", "false", "finally", "for", "function",
    "if", "import", "in", "instanceof", "new", "null", "return", "super", "switch", "this",
    "throw", "true", "try", "typeof", "var", "void", "while", "with", "yield"]

/-- Whether a fixed text can be told from a variable: it is reserved, or it starts with a
sign. -/
def isNoVariable (text : String) : Bool :=
  reservedWords.contains text ||
    text.toList.head?.any fun c => isAscii c && !(c.isAlpha || c = '$' || c = '_')

namespace IdentifierClass

variable (k : IdentifierClass)

def isName : List Char → Bool
  | [] => false
  | first :: rest => k.starts first && rest.all k.continues

/-- A name that may stand for a variable. -/
def IsIdentifier (name : String) : Prop := k.isName name.toList = true ∧ name ∉ reservedWords

/-- The class by which property keys are judged. -/
def ofTables : IdentifierClass where
  starts := startsIdentifier
  continues := continuesIdentifier
  starts_ascii := fun _ =>
    forall_ascii (P := fun c => startsIdentifier c = (c.isAlpha || c = '$' || c = '_')) (by decide)
  continues_ascii := fun _ =>
    forall_ascii (P := fun c => continuesIdentifier c = (c.isAlphanum || c = '$' || c = '_'))
      (by decide)
  continues_of_starts := fun c h => by
    simp only [startsIdentifier, Bool.or_eq_true] at h
    simp only [continuesIdentifier, Bool.or_eq_true]
    rcases h with (dollar | underscore) | letter
    · simp [dollar]
    · simp [underscore]
    · simp [letter]

variable {k}

/-- Punctuation does not start a name. -/
theorem starts_eq_false {c : Char} (ascii : isAscii c = true)
    (sign : (c.isAlpha || c = '$' || c = '_') = false) : k.starts c = false := by
  rw [k.starts_ascii c ascii, sign]

theorem isName_cons {c : Char} {rest : List Char} (h : k.isName (c :: rest) = true) :
    k.starts c = true ∧ ∀ d ∈ rest, k.continues d = true := by
  simpa [isName] using h

/-- Every character of a name continues one. -/
theorem continues_of_isName {text : List Char} (h : k.isName text = true) :
    ∀ c ∈ text, k.continues c = true := by
  cases text with
  | nil => exact fun c member => by cases member
  | cons c rest =>
      obtain ⟨starts, continues⟩ := isName_cons h
      exact List.forall_mem_cons.2 ⟨k.continues_of_starts c starts, continues⟩

theorem IsIdentifier.ne {name text : String} (h : k.IsIdentifier name)
    (fixed : isNoVariable text = true) : text.toList ≠ name.toList := by
  intro same
  obtain ⟨isName, free⟩ := h
  simp only [isNoVariable, Bool.or_eq_true, List.contains_eq_mem, decide_eq_true_eq,
    Option.any_eq_true, Bool.and_eq_true, Bool.not_eq_true'] at fixed
  rcases fixed with reserved | ⟨c, first, ascii, sign⟩
  · exact free (String.toList_inj.1 same ▸ reserved)
  · rw [same] at first
    cases spelled : name.toList with
    | nil => simp [spelled] at first
    | cons d rest =>
        rw [spelled] at first isName
        obtain rfl : d = c := by simpa using first
        have starts := (isName_cons isName).1
        rw [starts_eq_false ascii sign] at starts
        cases starts

/-- What a name consists of would be read on after a word. -/
theorem isIdentifierPart_of_continues {c : Char} (h : k.continues c = true) :
    isIdentifierPart c = true := by
  cases ascii : isAscii c with
  | false => simp [isIdentifierPart, ascii]
  | true =>
      rw [k.continues_ascii c ascii] at h
      simp only [isIdentifierPart, h, Bool.true_or]

end IdentifierClass

end EcmaScribe
