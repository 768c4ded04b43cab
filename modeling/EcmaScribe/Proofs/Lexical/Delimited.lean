/-
# EcmaScribe.Proofs.Lexical.Delimited -- strings and regular expressions end at their delimiter

A scan that skips what a backslash escapes finds the delimiter that closes a string, and one
that skips classes as well finds the slash that closes a regular expression.  Since the scan
depends on the text alone, no text has two strings of different lengths at its front, and no
two patterns.
-/
import EcmaScribe.Proofs.Lexical.WordAndNumber

namespace EcmaScribe

set_option autoImplicit false

open Text

namespace Lexical

variable {k : IdentifierClass}

/-! ## Strings -/

/-- The text after the quote that closes a string. -/
def afterQuote (quote : Char) : List Char → Option (List Char)
  | [] => none
  | '\\' :: _ :: rest => afterQuote quote rest
  | c :: rest => if c = quote then some rest else afterQuote quote rest

variable {quote : Char}

theorem afterQuote_cons {c : Char} (other : c ≠ quote) (noEscape : c ≠ '\\') (rest : List Char) :
    afterQuote quote (c :: rest) = afterQuote quote rest := by
  rw [afterQuote.eq_3 quote c rest fun _ _ escape _ => noEscape escape, if_neg other]

theorem afterQuote_quote (isQuote : IsQuote quote) (rest : List Char) :
    afterQuote quote (quote :: rest) = some rest := by
  rcases isQuote with rfl | rfl
  · rw [afterQuote.eq_3 _ _ _ (by simp), if_pos rfl]
  · rw [afterQuote.eq_3 _ _ _ (by simp), if_pos rfl]

theorem afterQuote_append {l : List Char} (plain : ∀ c ∈ l, c ≠ quote ∧ c ≠ '\\')
    (rest : List Char) : afterQuote quote (l ++ rest) = afterQuote quote rest := by
  induction l with
  | nil => rfl
  | cons c l ih =>
      have first := plain c (by simp)
      rw [List.cons_append, afterQuote_cons first.1 first.2, ih fun d member => plain d (by simp [member])]

theorem hexDigit_plain (isQuote : IsQuote quote) {c : Char} (digit : isHexDigit c = true) :
    c ≠ quote ∧ c ≠ '\\' := by
  rcases isQuote with rfl | rfl
  · exact forall_hexDigit (P := fun c => c ≠ '\x27' ∧ c ≠ '\\') (by decide) digit
  · exact forall_hexDigit (P := fun c => c ≠ '\x22' ∧ c ≠ '\\') (by decide) digit

theorem IsQuote.plain (isQuote : IsQuote quote) {c : Char} (foreign : ¬ IsQuote c)
    (noEscape : c ≠ '\\') : c ≠ quote ∧ c ≠ '\\' :=
  ⟨fun same => foreign (same ▸ isQuote), noEscape⟩

theorem afterQuote_part (isQuote : IsQuote quote) {part : List Char} (h : IsStringPart quote part)
    (rest : List Char) : afterQuote quote (part ++ rest) = afterQuote quote rest := by
  cases h with
  | plain other noEscape _ => exact afterQuote_cons other noEscape rest
  | escaped => rfl
  | octal => rfl
  | continued => rfl
  | continuedPair =>
      exact afterQuote_append (l := ['\n']) (by
        simpa using isQuote.plain (c := '\n') (by decide) (by decide)) rest
  | hexadecimal first second =>
      exact afterQuote_append (l := [_, _]) (by
        simpa using ⟨hexDigit_plain isQuote first, hexDigit_plain isQuote second⟩) rest
  | unicode isEscape =>
      cases isEscape with
      | fixed digits =>
          exact afterQuote_append (l := [_, _, _, _])
            (fun c member => hexDigit_plain isQuote (digits c member)) rest
      | @braced ds _ digits =>
          refine afterQuote_append (l := '\x7b' :: (ds ++ ['\x7d'])) ?_ rest
          have opening := isQuote.plain (c := '\x7b') (by decide) (by decide)
          have closing := isQuote.plain (c := '\x7d') (by decide) (by decide)
          intro c member
          rcases List.mem_cons.1 member with rfl | member
          · exact opening
          rcases List.mem_append.1 member with inDigits | atEnd
          · exact hexDigit_plain isQuote (digits c inDigits)
          · rw [List.mem_singleton.1 atEnd]
            exact closing

theorem afterQuote_body (isQuote : IsQuote quote) {body : List Char} (h : IsStringBody quote body)
    (rest : List Char) : afterQuote quote (body ++ quote :: rest) = some rest := by
  induction h with
  | nil => exact afterQuote_quote isQuote rest
  | cons first _ ih => rw [List.append_assoc, afterQuote_part isQuote first, ih]

/-- Nothing goes on with a string. -/
theorem IsString.eq_nil {text more : List Char} (h : IsString text) (longer : IsString (text ++ more)) :
    more = [] := by
  generalize joined : text ++ more = whole at longer
  cases h with
  | @quoted quote body isQuote isBody =>
      cases longer with
      | quoted isQuote' isBody' =>
          simp only [List.cons_append, List.append_assoc, List.nil_append, List.cons.injEq] at joined
          obtain ⟨rfl, joined⟩ := joined
          have first := afterQuote_body isQuote isBody more
          rw [joined, afterQuote_body isQuote' isBody'] at first
          exact (Option.some.inj first).symm

/-! ## Regular expressions -/

/-- The text after the slash that closes a pattern; `inClass` tells that a class is open. -/
def afterSlash : Bool → List Char → Option (List Char)
  | _, [] => none
  | inClass, '\\' :: _ :: rest => afterSlash inClass rest
  | true, c :: rest => afterSlash (c != ']') rest
  | false, c :: rest => if c = '/' then some rest else afterSlash (c == '[') rest

theorem afterSlash_inClass {c : Char} (noEscape : c ≠ '\\') (rest : List Char) :
    afterSlash true (c :: rest) = afterSlash (c != ']') rest :=
  afterSlash.eq_3 c rest fun _ _ escape _ => noEscape escape

theorem afterSlash_outside {c : Char} (noEscape : c ≠ '\\') (rest : List Char) :
    afterSlash false (c :: rest) = if c = '/' then some rest else afterSlash (c == '[') rest :=
  afterSlash.eq_4 c rest fun _ _ escape _ => noEscape escape

theorem afterSlash_class {body : List Char} (h : Repeated IsClassPart body) (rest : List Char) :
    afterSlash true (body ++ ']' :: rest) = afterSlash false rest := by
  induction h with
  | nil => exact afterSlash_inClass (by decide) rest
  | cons first _ ih =>
      rw [List.append_assoc]
      cases first with
      | char noEnd noEscape _ =>
          rw [List.cons_append, List.nil_append, afterSlash_inClass noEscape,
            show (_ != ']') = true from by simpa using noEnd, ih]
      | escaped => exact ih

theorem afterSlash_part {part : List Char} (h : IsPatternPart part) (rest : List Char) :
    afterSlash false (part ++ rest) = afterSlash false rest := by
  cases h with
  | char noEnd noClass noEscape _ =>
      rw [List.cons_append, List.nil_append, afterSlash_outside noEscape, if_neg noEnd,
        show (_ == '[') = false from by simpa using noClass]
  | escaped => rfl
  | @«class» body isBody =>
      rw [List.cons_append, List.append_assoc, afterSlash_outside (by decide), if_neg (by decide)]
      exact afterSlash_class isBody rest

theorem afterSlash_parts {pattern : List Char} (h : Repeated IsPatternPart pattern)
    (rest : List Char) : afterSlash false (pattern ++ '/' :: rest) = some rest := by
  induction h with
  | nil => exact afterSlash_outside (by decide) rest
  | cons first _ ih => rw [List.append_assoc, afterSlash_part first, ih]

/-- What goes on with a regular expression goes on with its flags. -/
theorem IsRegExp.rest {text more : List Char} (h : IsRegExp k text)
    (longer : IsRegExp k (text ++ more)) : Repeated (IsNamePart k) more := by
  generalize joined : text ++ more = whole at longer
  cases h with
  | @literal pattern flags isPattern isFlags =>
      cases longer with
      | @literal pattern' flags' isPattern' isFlags' =>
          simp only [List.cons_append, List.append_assoc, List.cons.injEq, true_and] at joined
          have first := afterSlash_parts isPattern.parts (flags ++ more)
          rw [joined, afterSlash_parts isPattern'.parts] at first
          exact nameParts_of_append isFlags (Option.some.inj first ▸ isFlags')

end Lexical

end EcmaScribe
