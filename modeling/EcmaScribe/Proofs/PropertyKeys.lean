/-
# EcmaScribe.Proofs.PropertyKeys -- a property key reads back as itself

A key is written bare if it passes for a name, as a number if it is the text of one, and as a
string otherwise.  A reader takes a bare name for its characters, a number for its text and a
string for its value, so in all three forms the key should come back.

For numbers and strings it does.  For names it depends on the characters: the classes by which
keys are judged let marks stand in front, and let superscripts, fractions and circled letters
stand anywhere, which are in no name of the language.  `keyDenotes_iff` says that these keys,
and no others, are written as what they are not.
-/
import EcmaScribe.Proofs.Number.Exact
import EcmaScribe.Proofs.Text.StandardIdentifier
import EcmaScribe.Proofs.Text.StringValue
import EcmaScribe.Render

namespace EcmaScribe

set_option autoImplicit false

open Text Lexical Fragment

variable {spelling : Spelling} {key : String}

/-- **A key is written as something that reads back as it**: as a name of the language, as a number
whose text it is, or as a string with its value. -/
inductive KeyDenotes (spelling : Spelling) (key : String) : Prop
  | bare (written : (propertyKey key).tokens spelling false = [.put (.text key.toList)])
      (isName : IdentifierClass.standard.isName key.toList = true)
  | number {n : Double} (written : (propertyKey key).tokens spelling false = [.put (.number n)])
      (finite : n.isFinite = true) (text : n.IsToString key.toList)
      (reads : ∀ compact, ∃ x, numeralValue? (n.literal compact) = some x ∧ n.Represents x)
  | quoted {quote : Char} {body : List Char} (isQuote : IsQuote quote)
      (written : (propertyKey key).tokens spelling false =
        [.put (.text (quote :: (body ++ [quote])))])
      (denotes : Denotes quote (key.toList.flatMap utf16Units) body)

/-! ## The three forms -/

theorem tokens_propertyKey_of_name (passes : isIdentifierName key.toList = true) :
    (propertyKey key).tokens spelling false = [.put (.text key.toList)] := by
  unfold propertyKey
  rw [if_pos passes]
  rfl

/-- A key that is written as a number is the text of that number. -/
theorem keyDenotes_of_number (noName : ¬ isIdentifierName key.toList = true) {n : Double}
    (isNumber : Double.ofKey? key.toList = some n) : KeyDenotes spelling key := by
  obtain ⟨finite, nonnegative⟩ := Double.nonnegative_of_ofKey? isNumber
  have literal : n.literal false = key.toList := by
    unfold Double.ofKey? at isNumber
    split at isNumber
    · split at isNumber
      · rename_i accepted
        obtain rfl := Option.some.inj isNumber
        simp only [Bool.and_eq_true, decide_eq_true_eq] at accepted
        exact accepted.2
      · cases isNumber
    · cases isNumber
  refine .number (n := n) ?_ finite (literal ▸ Double.isToString_literal finite)
    (Double.exists_value_of_nonnegative finite nonnegative)
  unfold propertyKey
  rw [if_neg noName, isNumber]
  rfl

theorem keyDenotes_of_string (noName : ¬ isIdentifierName key.toList = true)
    (noNumber : Double.ofKey? key.toList = none) : KeyDenotes spelling key := by
  have isQuote : IsQuote (delimiterFor key.toList) := delimiterFor_cases key.toList
  refine .quoted isQuote ?_ (denotes_literalChars isQuote key.toList)
  unfold propertyKey
  rw [if_neg noName, noNumber]
  rfl

/-- What passes for a name starts with no quote. -/
theorem not_isQuote_of_isIdentifierName {c : Char} {rest : List Char}
    (passes : isIdentifierName (c :: rest) = true) : ¬ IsQuote c := by
  simp only [isIdentifierName, Bool.and_eq_true] at passes
  rintro (rfl | rfl)
  · exact absurd passes.1 (by decide)
  · exact absurd passes.1 (by decide)

/-- A key that passes for a name has to be one. -/
theorem isName_of_keyDenotes (passes : isIdentifierName key.toList = true)
    (denotes : KeyDenotes spelling key) : IdentifierClass.standard.isName key.toList = true := by
  have name : (propertyKey key).tokens spelling false = [.put (.text key.toList)] :=
    tokens_propertyKey_of_name passes
  cases denotes with
  | bare _ isName => exact isName
  | number written =>
      rw [written] at name
      cases name
  | quoted isQuote written =>
      rw [written, List.cons.injEq, Step.put.injEq, Token.text.injEq] at name
      rw [← name.1] at passes
      exact absurd isQuote (not_isQuote_of_isIdentifierName passes)

/-! ## Which keys read back -/

/-- **Static property names denote their value**, with one exception: a key that passes for a name
although a mark stands in front of it, or a stray anywhere, is written bare and is no name. -/
theorem keyDenotes_iff (spelling : Spelling) (key : String) : KeyDenotes spelling key ↔
    (isIdentifierName key.toList = true → (∀ c ∈ key.toList.head?, isAlphabeticMark c = false) ∧
      ∀ c ∈ key.toList, isStray c = false) := by
  constructor
  · intro denotes passes
    exact (IdentifierClass.isName_standard_iff passes).1 (isName_of_keyDenotes passes denotes)
  · intro clean
    by_cases passes : isIdentifierName key.toList = true
    · exact .bare (tokens_propertyKey_of_name passes)
        ((IdentifierClass.isName_standard_iff passes).2 (clean passes))
    · cases isNumber : Double.ofKey? key.toList with
      | some n => exact keyDenotes_of_number passes isNumber
      | none => exact keyDenotes_of_string passes isNumber

/-- A superscript passes for part of a name. -/
theorem not_keyDenotes_superscript : ¬ KeyDenotes .plain "a²" := by
  intro denotes
  have isName := isName_of_keyDenotes (by decide) denotes
  revert isName
  decide

end EcmaScribe
