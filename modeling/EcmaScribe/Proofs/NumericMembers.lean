/-
# EcmaScribe.Proofs.NumericMembers -- members of numbers

An integer in front of a dot takes the dot for its own point, so a stream leaves a blank between
the two.  It tells an integer by its text, which is digits throughout, and the text of a negative
number starts with its sign.

`print_of_mem_numericMembers` gives the text of every member access on a number, in an expression
or as a target of an assignment.  The literal stands without parentheses, and what a reader takes
for the number is a numeral with or without a sign in front.  Without a sign the numeral ends
where it should, and the access is one on the number.  With a sign it does so only if it has a
point or an exponent, and then the sign stands before the access and not within it; an integer
runs into the dot.
-/
import EcmaScribe.Proofs.Number.Exact
import EcmaScribe.Proofs.TemplateText
import EcmaScribe.Proofs.WordSeparation

namespace EcmaScribe

set_option autoImplicit false

open Text Fragment Lexical

variable {k : IdentifierClass}

/-! ## The trees -/

namespace Node

/-- A member access on a number tells the number and the name of the member. -/
def ownNumericMember {c : Category} (n : Node c) : List (Double × String) :=
  match c, n with
  | .expression, .staticMember (.subject (.number value)) property => [(value, property)]
  | .simpleTarget, .staticMemberTarget (.subject (.number value)) property => [(value, property)]
  | _, _ => []

/-- The member accesses on numbers in a tree, at any depth. -/
def numericMembers {c : Category} (n : Node c) : List (Double × String) :=
  n.collect ownNumericMember

/-- What is written for a member access on a number. -/
def numericMemberFragment (m : Double × String) : Fragment :=
  Fragment.staticMember (.subject (.number m.1)) (.lexeme (.number m.1)) m.2

theorem forall_mem_ownNumericMember {p : {c : Category} → Node c → Double × String → Prop}
    (expression : ∀ value property,
      p (staticMember (.subject (.number value)) property) (value, property))
    (target : ∀ value property,
      p (staticMemberTarget (.subject (.number value)) property) (value, property))
    {c : Category} (n : Node c) : ∀ m ∈ n.ownNumericMember, p n m := by
  intro m member
  unfold ownNumericMember at member
  split at member
  · obtain rfl := List.mem_singleton.1 member
    exact expression _ _
  · obtain rfl := List.mem_singleton.1 member
    exact target _ _
  · cases member

theorem placed_numericMembers : Placed ownNumericMember numericMemberFragment where
  here := forall_mem_ownNumericMember
    (p := fun {c} n m => c.Contains (numericMemberFragment m) n.fragment)
    (fun _ _ => .here) fun _ _ => .here
  written := forall_mem_ownNumericMember
    (p := fun _ m => (numericMemberFragment m).isBlank = false)
    (fun _ _ => rfl) fun _ _ => rfl
  unnamed := rfl
  bare := fun params name sole => by
    rw [eq_of_soleName? sole]
    rfl

/-- Whatever the number, its literal stands without parentheses. -/
theorem steps_numericMemberFragment (noIn : Bool) (value : Double) (property : String) :
    (numericMemberFragment (value, property)).steps noIn =
      [.put (.number value), .put (.verbatim "."), .put (.name .member property)] := rfl

end Node

/-! ## The stream -/

namespace Stream

variable {spelling : Spelling} {layout : Layout} {s : Stream}

/-- In front of a dot there is a blank if an integer has been written last. -/
theorem gap_dot (idle : s.Idle) (some : s.written ≠ []) :
    s.gap layout ['.'] = if s.lastInteger then [' '] else [] := by
  obtain ⟨last, before, ends⟩ := List.exists_cons_of_ne_nil some
  have apart : s.needsSeparator ['.'] = s.lastInteger := by
    rw [needsSeparator_cons ends]
    have noPart : isIdentifierPart '.' = false := rfl
    simp [noPart]
  have noOpener : formsOpenerAfter s.written ['.'] = false := by
    rw [Bool.eq_false_iff, ne_eq, formsOpenerAfter_eq_true_iff]
    exact not_straddles_of_head rfl (by decide) (by decide)
  simp [gap, idle.space, idle.lineBreak, apart, noOpener]

/-- Behind a dot there is no gap. -/
theorem gap_behind_dot (idle : s.Idle) {before : List Char} (ends : s.text = before ++ ['.'])
    (integer : s.lastInteger = false) (text : List Char) : s.gap layout text = [] := by
  have written : s.written = '.' :: before.reverse := by
    have reversed := congrArg List.reverse ends
    simpa [Stream.text] using reversed
  have apart : s.needsSeparator text = false := by
    cases text with
    | nil => exact needsSeparator_nil
    | cons next rest =>
        have noPart : isIdentifierPart '.' = false := rfl
        rw [needsSeparator_cons written]
        simp [noPart, integer]
  have noOpener : formsOpenerAfter s.written text = false := by
    rw [Bool.eq_false_iff, ne_eq, formsOpenerAfter_eq_true_iff]
    have reverse : s.written.reverse = before ++ ['.'] := ends
    rw [reverse]
    exact not_straddles_after (by decide) before text
  simp [gap, idle.space, idle.lineBreak, apart, noOpener]

end Stream

/-! ## The tokens -/

section Tokens

variable {spelling : Spelling} {layout : Layout}

theorem writtenText_dot : (Lexeme.verbatim ".").writtenText spelling layout = ['.'] :=
  Lexeme.writtenText_of_isWebSafe rfl fun _ => by decide

/-- The name of a member is a word, in safe output too. -/
theorem isWord_member {property : String} (isName : k.isName property.toList = true) :
    IsWord k ((Lexeme.name .member property).writtenText spelling layout) := by
  have plain : ∀ c ∈ property.toList, IsPlain c := fun c member =>
    isPlain_of_continues (IdentifierClass.continues_of_isName isName c member)
  show IsWord k (if layout.safe then sanitize property.toList else property.toList)
  split
  · rw [sanitize_name plain]
    exact isWord_flatMap_nameChar false isName
  · exact isWord_of_isName isName

theorem Lexical.IsWord.ne_nil {text : List Char} (isWord : IsWord k text) : text ≠ [] := by
  obtain ⟨c, rest, rfl, -⟩ := isWord.first
  exact List.cons_ne_nil c rest

end Tokens

/-! ## The reader -/

namespace Lexical

variable {numeral : List Char}

/-- Behind an integer a dot is its point. -/
theorem isNumber_point {x : ℚ} (value : numeralValue? numeral = some x)
    (digits : IsDigits numeral) : IsNumber (numeral ++ ['.']) := by
  have whole : numeral.takeWhile Char.isDigit = numeral ∧
      numeral.dropWhile Char.isDigit = [] := by
    simpa using takeWhile_digits [] digits rfl
  unfold numeralValue? at value
  simp only [whole.1, whole.2, Double.splitFraction, List.append_nil] at value
  split at value
  · cases value
  · rename_i wellFormed
    rw [not_or] at wellFormed
    have isWhole : IsWhole numeral := by
      refine ⟨wellFormed.1, digits, fun zero => .inl ?_⟩
      by_contra more
      exact wellFormed.2 ⟨zero, more⟩
    have pointed : IsNumber (numeral ++ '.' :: ([] ++ [])) :=
      .point isWhole (by simp [IsDigits]) .none
    exact pointed

/-- **A dot ends a numeral** exactly if the numeral is no integer. -/
theorem isLongest_dot_iff (isNumeral : IsNumeral numeral) {x : ℚ}
    (value : numeralValue? numeral = some x) (rest : List Char) :
    IsLongest k false numeral ('.' :: rest) ↔ ¬ IsDigits numeral := by
  constructor
  · intro longest digits
    exact longest.longest ['.'] (by simp) (by simp) (.number (isNumber_point value digits))
  · intro noInteger
    refine isLongest_number isNumeral fun c first => ?_
    obtain rfl : '.' = c := by simpa using first
    exact ⟨rfl, fun _ => noInteger⟩

theorem isLongest_blank (isNumeral : IsNumeral numeral) (rest : List Char) :
    IsLongest k false numeral (' ' :: rest) := by
  refine isLongest_number isNumeral fun c first => ?_
  obtain rfl : ' ' = c := by simpa using first
  exact ⟨rfl, by simp⟩

/-- The dot in front of a name is one by itself. -/
theorem isLongest_dot {name : List Char} (isWord : IsWord k name) (rest : List Char) :
    IsLongest k false ['.'] (name ++ rest) := by
  obtain ⟨c, tail, rfl, starts⟩ := isWord.first
  refine isLongest_punctuator (by decide) fun d first => ?_
  obtain rfl : c = d := by simpa using first
  constructor
  · intro follower
    have dot : c = '.' := by
      have table : ∀ d ∈ followers ['.'], d = '.' := by decide
      exact table c follower
    exact not_startsWord (.inr (.inr (dot ▸ by decide))) starts
  · intro _
    by_contra digit
    exact not_startsWord (.inl (by simpa using digit)) starts

end Lexical

/-! ## Scripts -/

namespace Double

/-- A literal is an integer to the stream if it is digits without a sign. -/
theorem all_isDigit_writtenSign (value : Double) (numeral : List Char) :
    (value.writtenSign ++ numeral).all Char.isDigit = true ↔
      value.writtenSign = [] ∧ IsDigits numeral := by
  unfold writtenSign sign
  split
  · simp [IsDigits]
  · split
    · simp
    · simp [IsDigits]

end Double

namespace Node

variable {spelling : Spelling} {layout : Layout}

/-- The blank between a literal and a dot. -/
def dotGap (literal : List Char) : List Char := if literal.all Char.isDigit then [' '] else []

/-- **What a stream writes for a member of a number**: the literal, the dot behind its gap, and
the name. -/
theorem exists_text_numericMember (spelling : Spelling) (s : Stream) {value : Double} {property : String}
    (literal : value.literal layout.compact ≠ [])
    (name : (Lexeme.name .member property).writtenText spelling layout ≠ []) (noIn : Bool) :
    ∃ before, s.text <+: before ∧
      (s.after spelling layout ((numericMemberFragment (value, property)).steps noIn)).text =
        before ++ value.literal layout.compact ++ dotGap (value.literal layout.compact) ++ '.' ::
          (Lexeme.name .member property).writtenText spelling layout := by
  have number : (Lexeme.number value).writtenText spelling layout ≠ [] := literal
  have dot : (Lexeme.verbatim ".").writtenText spelling layout = ['.'] := writtenText_dot
  have dotWritten : (Lexeme.verbatim ".").writtenText spelling layout ≠ [] := by simp [dot]
  -- the streams behind the literal and behind the dot
  let t := s.put layout ((Lexeme.number value).spell spelling)
  let u := t.put layout ((Lexeme.verbatim ".").spell spelling)
  obtain ⟨before, longer, text⟩ := Stream.exists_text_put (s := s) number
  have behindNumber : t.Idle := Stream.idle_put number
  have integer : t.lastInteger = (value.literal layout.compact).all Char.isDigit :=
    Stream.lastInteger_put number
  have some : t.written ≠ [] := by
    intro nothing
    have none : t.text = [] := by simp [Stream.text, nothing]
    rw [text] at none
    exact number (List.append_eq_nil_iff.1 none).2
  have dotText : u.text = t.text ++ dotGap (value.literal layout.compact) ++ ['.'] := by
    have put := Stream.text_put_of_idle behindNumber dotWritten
    rw [dot, Stream.gap_dot behindNumber some, integer] at put
    exact put
  have behindDot : u.Idle := Stream.idle_put dotWritten
  have noInteger : u.lastInteger = false := by
    have last := Stream.lastInteger_put (s := t) dotWritten
    rw [dot] at last
    exact last
  have nameText := Stream.text_put_of_idle behindDot name
  rw [Stream.gap_behind_dot behindDot dotText noInteger, List.append_nil] at nameText
  refine ⟨before, longer, ?_⟩
  rw [steps_numericMemberFragment]
  show (u.put layout ((Lexeme.name .member property).spell spelling)).text = _
  rw [nameText, dotText]
  show t.text ++ _ ++ _ ++ _ = _
  rw [text]
  simp [Lexeme.writtenText, Lexeme.spell, Token.writtenText]

/-- What is read of a literal in front of a dot, after its sign: the numeral, unless it is an integer
and has a sign. -/
theorem isLongest_literal_iff {value : Double} {literal numeral : List Char} {x : ℚ}
    (signed : literal = value.writtenSign ++ numeral) (isNumeral : IsNumeral numeral)
    (denotes : numeralValue? numeral = Option.some x) (rest : List Char) :
    IsLongest k false numeral (dotGap literal ++ '.' :: rest) ↔
      value.writtenSign = [] ∨ ¬ IsDigits numeral := by
  have integer := value.all_isDigit_writtenSign numeral
  rw [← signed] at integer
  unfold dotGap
  by_cases isInteger : literal.all Char.isDigit = true
  · rw [if_pos isInteger]
    exact ⟨fun _ => .inl (integer.1 isInteger).1, fun _ => isLongest_blank isNumeral _⟩
  · rw [if_neg isInteger]
    refine (isLongest_dot_iff isNumeral denotes _).trans ⟨.inr, fun apart digits => ?_⟩
    rcases apart with noSign | noInteger
    · exact isInteger (integer.2 ⟨noSign, digits⟩)
    · exact noInteger digits

/-- **Member access on a number.**  In a script it is the literal, a dot and the name of the member:
the literal in no parentheses, a blank before the dot if the literal is digits throughout.

* The literal is the sign and a numeral, and they read back as the number.
* The dot is one by itself, and the name a word.
* A reader who has taken the sign, if there is one, takes the numeral and leaves the dot, unless
  the numeral is an integer with a sign: that one it reads together with the dot.

So it is at every place where the instructions of the access stand in those of the program, and
there is one. -/
theorem print_of_mem_numericMembers {program : Program} {value : Double} {property : String}
    (member : (value, property) ∈ program.numericMembers) (finite : value.isFinite = true)
    (isName : k.isName property.toList = true) (options : PrintOptions) :
    let literal := value.literal options.layout.compact
    let name := (Lexeme.name .member property).writtenText options.spelling options.layout
    (∃ front noIn back, program.fragment.steps false =
      front ++ (numericMemberFragment (value, property)).steps noIn ++ back) ∧
    ∀ front noIn back, program.fragment.steps false =
        front ++ (numericMemberFragment (value, property)).steps noIn ++ back →
      ∃ before numeral after x,
        (Stream.start.after options.spelling options.layout front).text <+: before ∧
        program.print options = before ++ literal ++ dotGap literal ++ '.' :: (name ++ after) ∧
        literal = value.writtenSign ++ numeral ∧ numeralValue? numeral = Option.some x ∧
        value.Represents (value.signed x) ∧
        IsWord k name ∧ IsLongest k false ['.'] (name ++ after) ∧
        (IsLongest k false numeral (dotGap literal ++ '.' :: (name ++ after)) ↔
          value.writtenSign = [] ∨ ¬ IsDigits numeral) := by
  intro literal name
  obtain ⟨numeral, x, signed, isNumeral, denotes, reads⟩ :=
    Double.exists_numeral finite options.layout.compact
  have isWord : IsWord k name := isWord_member isName
  have written : literal ≠ [] := by
    obtain ⟨c, rest, rfl, -⟩ := isNumeral.head
    simp [literal, signed]
  have within : Within (numericMemberFragment (value, property)) program.fragment :=
    contains_of_mem_collect placed_numericMembers program (value, property) member
  refine ⟨within.exists_steps rfl false, fun front noIn back whole => ?_⟩
  let s := Stream.start.after options.spelling options.layout front
  obtain ⟨before, longer, text⟩ := exists_text_numericMember options.spelling s written
    isWord.ne_nil noIn
  obtain ⟨after, printed⟩ := exists_print_of_steps whole options
  refine ⟨before, numeral, after, x, longer, ?_, signed, denotes, reads, isWord,
    isLongest_dot isWord after, isLongest_literal_iff signed isNumeral denotes _⟩
  rw [printed, text]
  simp [literal, name]

/-- Members of one and of minus one; the first is a target, with a name beyond ASCII. -/
def membersOfOnes : Program :=
  .script .nil (.cons (.evaluate (.assign
    (.simpleTarget (.staticMemberTarget (.subject (.number ⟨0x3FF0000000000000⟩)) "é"))
    (.staticMember (.subject (.number ⟨0xBFF0000000000000⟩)) "x"))) .nil)

theorem print_membersOfOnes :
    let one : Double := ⟨0x3FF0000000000000⟩
    (one, "é") ∈ membersOfOnes.numericMembers ∧ one.isFinite = true ∧
      IdentifierClass.ofTables.isName "é".toList = true ∧
      (∃ before after, membersOfOnes.webSafe = before ++ "1 .\\u00E9".toList ++ after) ∧
      membersOfOnes.webSafe = "1 .\\u00E9=-1.x;".toList := by
  intro one
  have member : (one, "é") ∈ membersOfOnes.numericMembers := List.mem_cons_self ..
  have finite : one.isFinite = true := by decide
  have isName : IdentifierClass.ofTables.isName "é".toList = true := by decide
  obtain ⟨⟨front, noIn, back, whole⟩, everywhere⟩ :=
    print_of_mem_numericMembers member finite isName .webSafe
  obtain ⟨before, -, after, -, -, printed, -⟩ := everywhere front noIn back whole
  have literal : one.literal PrintOptions.webSafe.layout.compact = ['1'] := by decide
  have name : (Lexeme.name .member "é").writtenText PrintOptions.webSafe.spelling
      PrintOptions.webSafe.layout = "\\u00E9".toList := by decide +kernel
  rw [literal, name] at printed
  refine ⟨member, finite, isName, ⟨before, after, ?_⟩, by decide +kernel⟩
  rw [webSafe, printed]
  simp [dotGap]

/-- A negative integer is written in no parentheses and with no blank, in all three modes, and a
reader takes the dot for its point. -/
theorem dot_after_negative_integer :
    let program : Program := .script .nil (.cons (.evaluate
      (.staticMember (.subject (.number ⟨0xBFF0000000000000⟩)) "x")) .nil)
    program.pretty = "-1.x;\n".toList ∧ program.compact = "-1.x;".toList ∧
      program.webSafe = "-1.x;".toList ∧
      ¬ IsLongest IdentifierClass.ofTables false ['1'] ".x;".toList := by
  refine ⟨by decide, by decide, by decide, fun longest => ?_⟩
  have pointed : IsNumber (['1'] ++ '.' :: ([] ++ [])) :=
    .point ⟨by simp, by decide, by simp⟩ (by simp [IsDigits]) .none
  exact longest.longest ['.'] (by simp) (by decide) (.number pointed)

end Node

end EcmaScribe
