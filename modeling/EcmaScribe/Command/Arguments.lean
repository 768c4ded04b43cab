/-
# EcmaScribe.Command.Arguments -- the command line

    [-m|--mode MODE] [--indent N] [--new-line KIND] [--references] [INPUT]

A setting takes one value, attached (`-mMODE`, `-m=MODE`, `--mode=MODE`) or as the next
argument; a bare value that begins with a hyphen is an option, except `-` alone.  After
`--` every argument is an operand.

A value is examined only when the next option or operand begins, or at the end.  Until
then it is `pending`, and an unknown argument is reported before a pending value that is
wrong.  Each setting may be given once, and there is one operand.
-/
import EcmaScribe.Layout.Options

namespace EcmaScribe.Command

set_option autoImplicit false

/-! ## What the arguments say -/

/-- The names of the modes on the command line. -/
def modeOfName? (name : String) : Option RenderMode :=
  if name = "pretty" then some .pretty
  else if name = "compact" then some .compact
  else if name = "web-safe" ∨ name = "websafe" then some .webSafe
  else none

/-- The names of the line terminators on the command line. -/
def newLineOfName? (name : String) : Option NewLine :=
  if name = "lf" then some .lineFeed
  else if name = "crlf" then some .carriageReturnLineFeed
  else none

def newLineName : NewLine → String
  | .lineFeed => "lf"
  | .carriageReturnLineFeed => "crlf"

structure Arguments where
  options : PrintOptions
  /-- List the references of the program in place of its text. -/
  references : Bool
  input : Option String
  deriving DecidableEq, Repr

/-- Why no program is processed. -/
inductive Rejection
  /-- A value is missing, or is none of those that the setting admits. -/
  | invalidValue
  /-- A count is not a decimal number of 64 bits. -/
  | invalidCount
  | unknownArgument
  /-- A setting or a switch is given twice. -/
  | repeated
  /-- A switch is given a value. -/
  | unexpectedValue
  | help
  | version
  deriving DecidableEq, Repr

/-! ## Settings and switches -/

/-- What takes a value; the input is the operand. -/
inductive Setting
  | mode
  | indent
  | newLine
  | input
  deriving DecidableEq, Repr

inductive Switch
  | references
  | help
  | version
  deriving DecidableEq, Repr

def optionOfName? (name : String) : Option (Setting ⊕ Switch) :=
  if name = "mode" then some (.inl .mode)
  else if name = "indent" then some (.inl .indent)
  else if name = "new-line" then some (.inl .newLine)
  else if name = "references" then some (.inr .references)
  else if name = "help" then some (.inr .help)
  else if name = "version" then some (.inr .version)
  else none

/-- A decimal count of 64 bits; a plus sign may stand before it. -/
def countOf? (text : String) : Option Nat :=
  let digits := match text.toList with
    | '+' :: rest => rest
    | digits => digits
  if digits.isEmpty || !digits.all Char.isDigit then none
  else
    let count := digits.foldl (fun n c => 10 * n + (c.toNat - 48)) 0
    if count < UInt64.size then some count else none

/-! ## The state of the scan -/

/-- What has been given so far. -/
structure Given where
  mode : Option RenderMode
  indent : Option Nat
  newLine : Option NewLine
  references : Bool
  input : Option String

namespace Given

def empty : Given := ⟨none, none, none, false, none⟩

def complete (given : Given) : Arguments where
  options := ⟨given.mode.getD .pretty, given.indent.getD 2, given.newLine.getD .lineFeed⟩
  references := given.references
  input := given.input

/-- Fill a slot once. -/
def once {α : Type} (slot : Option α) (value : Except Rejection α) :
    Except Rejection (Option α) :=
  match slot with
  | some _ => .error .repeated
  | none => value.map some

def orElse {α : Type} (rejection : Rejection) : Option α → Except Rejection α
  | some value => .ok value
  | none => .error rejection

/-- Take in the value of a setting. -/
def set (given : Given) (value : String) : Setting → Except Rejection Given
  | .mode =>
      (once given.mode (orElse .invalidValue (modeOfName? value))).map
        fun mode => { given with mode }
  | .indent =>
      (once given.indent (orElse .invalidCount (countOf? value))).map
        fun indent => { given with indent }
  | .newLine =>
      (once given.newLine (orElse .invalidValue (newLineOfName? value))).map
        fun newLine => { given with newLine }
  | .input =>
      if value = "" then .error .invalidValue else .ok { given with input := some value }

def turnOn (given : Given) : Switch → Except Rejection Given
  | .references => if given.references then .error .repeated
      else .ok { given with references := true }
  | .help => .error .help
  | .version => .error .version

end Given

/-- A setting whose value has not been examined, or has not been given yet. -/
structure Pending where
  setting : Setting
  value : Option String

/-- Examine what is pending. -/
def settle (given : Given) : Option Pending → Except Rejection Given
  | none => .ok given
  | some ⟨_, none⟩ => .error .invalidValue
  | some ⟨setting, some value⟩ => given.set value setting

/-- The setting that waits for its value. -/
def awaiting? : Option Pending → Option Setting
  | some ⟨setting, none⟩ => some setting
  | _ => none

structure Progress where
  given : Given
  pending : Option Pending

namespace Progress

def hasInput (progress : Progress) : Bool :=
  progress.given.input.isSome || progress.pending.any (·.setting = .input)

def operand (progress : Progress) (value : String) : Except Rejection Progress :=
  if progress.hasInput then .error .unknownArgument
  else (settle progress.given progress.pending).map
    fun given => ⟨given, some ⟨.input, some value⟩⟩

/-- A setting, with its value if that is attached. -/
def setting (progress : Progress) (setting : Setting) (attached : Option String) :
    Except Rejection Progress := do
  let given ← settle progress.given progress.pending
  match attached with
  | some value => (given.set value setting).map fun given => ⟨given, none⟩
  | none => .ok ⟨given, some ⟨setting, none⟩⟩

def switch (progress : Progress) (switch : Switch) : Except Rejection Progress := do
  let given ← settle progress.given progress.pending
  (given.turnOn switch).map fun given => ⟨given, none⟩

/-- An option with a long name, and its value after the first equals sign. -/
def long (progress : Progress) (body : List Char) : Except Rejection Progress :=
  let name := body.takeWhile (· ≠ '=')
  let attached := match body.dropWhile (· ≠ '=') with
    | _ :: value => some (String.ofList value)
    | [] => none
  match optionOfName? (String.ofList name) with
  | some (.inl setting) => progress.setting setting attached
  | some (.inr switch) =>
      if attached.isSome then .error .unexpectedValue else progress.switch switch
  | none => .error .unknownArgument

/-- An option of one letter, and what is attached to it. -/
def short (progress : Progress) (letter : Char) (rest : List Char) :
    Except Rejection Progress :=
  if letter = 'm' then
    progress.setting .mode <| match rest with
      | [] => none
      | '=' :: value => some (String.ofList value)
      | value => some (String.ofList value)
  else if letter = 'h' then progress.switch .help
  else if letter = 'V' then progress.switch .version
  else .error .unknownArgument

/-- A value that stands alone. -/
def bare (progress : Progress) (value : String) : Except Rejection Progress :=
  match awaiting? progress.pending with
  | some setting => .ok { progress with pending := some ⟨setting, some value⟩ }
  | none => progress.operand value

/-- One argument before any `--`. -/
def step (progress : Progress) (argument : String) : Except Rejection Progress :=
  match argument.toList with
  | '-' :: '-' :: body => progress.long body
  | '-' :: letter :: rest => progress.short letter rest
  | _ => progress.bare argument

/-- Arguments that may be options. -/
def scan (progress : Progress) : List String → Except Rejection Progress
  | [] => .ok progress
  | argument :: rest =>
      if argument = "--" then rest.foldlM operand progress
      else do scan (← progress.step argument) rest

end Progress

/-- The arguments of the command, or why they are rejected. -/
def Arguments.ofList? (arguments : List String) : Except Rejection Arguments := do
  let progress ← Progress.scan ⟨.empty, none⟩ arguments
  let given ← settle progress.given progress.pending
  .ok given.complete

end EcmaScribe.Command
