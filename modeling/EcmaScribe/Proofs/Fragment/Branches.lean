/-
# EcmaScribe.Proofs.Fragment.Branches -- which `if` an `else` belongs to

`BranchReader` resolves the `else`s of a script word by word.  Its frames are what is open: groups
in brackets, the bodies of `do` loops, and `if`s that have no `else` yet.  An `else` belongs to the
`if` on top, if a statement has just ended.  A bracket closes all that has been opened since its
partner; the `while` that follows a body closes its `do`.

An `if` is done when a statement has ended and no `else` comes.  After a semicolon the next word
tells.  After a brace it may go on with the same statement, so there the `if` stays open, unless
the next word is known to start a statement.  So what is found on top is the innermost `if` that
can take the `else`.

`frames_run_of_exposed`: whatever is balanced, and has no word of a statement outside its brackets,
leaves the frames as they are.
-/
import EcmaScribe.Proofs.Fragment.Code
import EcmaScribe.Proofs.Lexical.Spelled

namespace EcmaScribe

set_option autoImplicit false

/-! ## The reader -/

/-- What is open in front of a word. -/
inductive Frame
  | group
  | loop
  /-- An `if`, told by its number in the script. -/
  | branch (number : Nat)
  deriving DecidableEq, Repr

def Frame.isBranch : Frame → Bool
  | branch _ => true
  | group | loop => false

/-- What has just ended a statement. -/
inductive Ending
  | none
  | semicolon
  | brace
  deriving DecidableEq, Repr

/-- What a lexeme is to the reader. -/
inductive BranchRole
  | blank
  | templateText
  | semicolon
  | startsBranch
  | startsOther
  | startsLoop
  | repeats
  | opens
  | closes (brace : Bool)
  | plain
  deriving DecidableEq, Repr

def BranchRole.ofBracketing : Bracketing → BranchRole
  | .opens _ => .opens
  | .closes closer => .closes (closer = "\x7d")
  | .plain => .plain

def BranchRole.ofWord (word : String) : BranchRole :=
  match word with
  | "" => .blank
  | ";" => .semicolon
  | "if" => .startsBranch
  | "else" => .startsOther
  | "do" => .startsLoop
  | "while" => .repeats
  | _ => .ofBracketing (.ofWord word)

def Lexeme.branchRole : Lexeme → BranchRole
  | verbatim text | name _ text => .ofWord text
  | chunk follows leads raw => if (chunk follows leads raw).isBlank then .blank else .templateText
  | number _ | string _ | quoted _ | regExp .. | directive _ => .plain

/-- A script read up to some place. -/
structure BranchReader where
  /-- The innermost frame first. -/
  frames : List Frame
  ending : Ending
  /-- How many `if`s have been read. -/
  ifs : Nat
  /-- For each `else` the number of its `if`. -/
  owners : List (Option Nat)
  deriving DecidableEq, Repr

namespace BranchReader

def start : BranchReader := ⟨[], .none, 0, []⟩

/-- The frames without the `if`s that have ended, if it is known that they have. -/
def settled (r : BranchReader) (starts : Bool) : List Frame :=
  match r.ending, starts with
  | .semicolon, _ | .brace, true => r.frames.dropWhile Frame.isBranch
  | .brace, false | .none, _ => r.frames

/-- The `if` that an `else` belongs to, and the frames around it. -/
def owner (r : BranchReader) : Option Nat × List Frame :=
  match r.ending, r.frames with
  | .semicolon, .branch number :: outer | .brace, .branch number :: outer => (some number, outer)
  | _, _ => (Option.none, r.frames)

/-- The frames after a `while`, which may close a `do`. -/
def afterWhile (r : BranchReader) : List Frame :=
  match r.settled true with
  | .loop :: outer => if r.ending = .none then .loop :: outer else outer
  | frames => frames

def read (r : BranchReader) (l : Lexeme) : BranchReader :=
  match l.branchRole with
  | .blank => r
  | .templateText => { r with ending := .none }
  | .semicolon => { r with ending := .semicolon }
  | .startsBranch =>
      { r with frames := .branch r.ifs :: r.settled true, ending := .none, ifs := r.ifs + 1 }
  | .startsOther =>
      { r with frames := r.owner.2, ending := .none, owners := r.owners ++ [r.owner.1] }
  | .startsLoop => { r with frames := .loop :: r.settled true, ending := .none }
  | .repeats => { r with frames := r.afterWhile, ending := .none }
  | .opens => { r with frames := .group :: r.settled false, ending := .none }
  | .closes brace =>
      { r with
        frames := (r.frames.dropWhile (· ≠ .group)).tail
        ending := if brace then .brace else .none }
  | .plain => { r with frames := r.settled false, ending := .none }

def run (r : BranchReader) (l : List Lexeme) : BranchReader := l.foldl read r

variable {r : BranchReader}

@[simp] theorem run_nil : r.run [] = r := rfl

@[simp] theorem run_cons (x : Lexeme) (l : List Lexeme) : r.run (x :: l) = (r.read x).run l := rfl

@[simp] theorem run_append (l m : List Lexeme) : r.run (l ++ m) = (r.run l).run m :=
  List.foldl_append

end BranchReader

/-! ## Roles of lexemes -/

theorem Lexeme.branchRole_of_word {l : Lexeme} {word : String} (h : l.word? = some word) :
    l.branchRole = .ofWord word := by
  cases l <;> cases h <;> rfl

theorem Lexeme.branchRole_of_literal {l : Lexeme} (h : l.word? = none) :
    l.branchRole = .blank ∨ l.branchRole = .templateText ∨ l.branchRole = .plain := by
  cases l with
  | verbatim | name => cases h
  | chunk follows leads raw =>
      by_cases blank : (chunk follows leads raw).isBlank = true
      · exact .inl (if_pos blank)
      · exact .inr (.inl (if_neg blank))
  | _ => exact .inr (.inr rfl)

/-- A bracket has the role of a bracket. -/
theorem BranchRole.ofWord_of_bracket {word : String} (bracket : Bracketing.ofWord word ≠ .plain) :
    ofWord word = .ofBracketing (.ofWord word) := by
  unfold ofWord
  split <;> first | rfl | exact absurd rfl bracket

theorem Lexeme.branchRole_of_bracket {l : Lexeme} (bracket : l.bracketing ≠ .plain) :
    l.branchRole = .ofBracketing l.bracketing := by
  cases reads : l.word? with
  | none => simp [bracketing, reads] at bracket
  | some word =>
      simp only [bracketing, reads, Option.elim_some] at bracket ⊢
      rw [branchRole_of_word reads, BranchRole.ofWord_of_bracket bracket]

/-- What is no bracket neither opens nor closes a group. -/
theorem BranchRole.ofWord_of_plain {word : String} (plain : Bracketing.ofWord word = .plain) :
    ofWord word ≠ .opens ∧ ∀ brace, ofWord word ≠ .closes brace := by
  unfold ofWord
  split <;> simp [ofBracketing, plain]

theorem Lexeme.branchRole_of_plain {l : Lexeme} (plain : l.bracketing = .plain) :
    l.branchRole ≠ .opens ∧ ∀ brace, l.branchRole ≠ .closes brace := by
  cases reads : l.word? with
  | none => rcases branchRole_of_literal reads with role | role | role <;> simp [role]
  | some word =>
      simp only [bracketing, reads, Option.elim_some] at plain
      rw [branchRole_of_word reads]
      exact BranchRole.ofWord_of_plain plain

/-- A lexeme that is no bracket and no word of a statement. -/
theorem Lexeme.branchRole_of_avoids {l : Lexeme} (plain : l.bracketing = .plain)
    (calm : l.Avoids Fragment.statementTexts) :
    l.branchRole = .blank ∨ l.branchRole = .templateText ∨ l.branchRole = .plain := by
  cases reads : l.word? with
  | none => exact branchRole_of_literal reads
  | some word =>
      have free := calm word reads
      simp only [bracketing, reads, Option.elim_some] at plain
      rw [branchRole_of_word reads]
      unfold BranchRole.ofWord
      split <;> simp_all [BranchRole.ofBracketing, Fragment.statementTexts]

/-! ## Reading balanced lexemes -/

/-- Frames over a number of groups, under which there are the frames at the start. -/
def Frame.Over (bottom : List Frame) : Nat → List Frame → Prop
  | 0, frames => frames = bottom
  | groups + 1, frames => ∃ above below, frames = above ++ .group :: below ∧
      (∀ frame ∈ above, frame ≠ .group) ∧ Over bottom groups below

namespace Frame.Over

variable {bottom frames : List Frame} {groups : Nat}

theorem push {frame : Frame} (h : Over bottom (groups + 1) frames) (other : frame ≠ .group) :
    Over bottom (groups + 1) (frame :: frames) := by
  obtain ⟨above, below, rfl, others, under⟩ := h
  exact ⟨frame :: above, below, rfl, List.forall_mem_cons.2 ⟨other, others⟩, under⟩

theorem group (h : Over bottom groups frames) : Over bottom (groups + 1) (.group :: frames) :=
  ⟨[], frames, rfl, by simp, h⟩

theorem pop {frame : Frame} (h : Over bottom (groups + 1) (frame :: frames))
    (other : frame ≠ .group) : Over bottom (groups + 1) frames := by
  obtain ⟨above, below, same, others, under⟩ := h
  cases above with
  | nil =>
      obtain ⟨rfl, -⟩ := List.cons.inj same
      exact absurd rfl other
  | cons first above =>
      obtain ⟨-, rfl⟩ := List.cons.inj same
      exact ⟨above, below, rfl, (List.forall_mem_cons.1 others).2, under⟩

theorem dropBranches (h : Over bottom (groups + 1) frames) :
    Over bottom (groups + 1) (frames.dropWhile Frame.isBranch) := by
  induction frames with
  | nil => exact h
  | cons frame frames ih =>
      cases frame with
      | group | loop => exact h
      | branch number => exact ih (h.pop (by simp))

theorem close (h : Over bottom (groups + 1) frames) :
    Over bottom groups (frames.dropWhile (· ≠ .group)).tail := by
  obtain ⟨above, below, rfl, others, under⟩ := h
  have passed : (above ++ .group :: below).dropWhile (· ≠ .group) = .group :: below := by
    rw [List.dropWhile_append_of_pos (by simpa using others)]
    simp
  rwa [passed]

end Frame.Over

namespace BranchReader

variable {r : BranchReader} {bottom : List Frame}

theorem settled_false (unsettled : r.ending ≠ .semicolon) : r.settled false = r.frames := by
  unfold settled
  split <;> simp_all

theorem over_settled {groups : Nat} (h : Frame.Over bottom (groups + 1) r.frames) (starts : Bool) :
    Frame.Over bottom (groups + 1) (r.settled starts) := by
  unfold settled
  split
  · exact h.dropBranches
  · exact h.dropBranches
  · exact h
  · exact h

/-- Within a group, what is no bracket leaves the group open. -/
theorem over_read {groups : Nat} (h : Frame.Over bottom (groups + 1) r.frames) {x : Lexeme}
    (plain : x.bracketing = .plain) : Frame.Over bottom (groups + 1) (r.read x).frames := by
  obtain ⟨noOpener, noCloser⟩ := x.branchRole_of_plain plain
  cases role : x.branchRole with
  | blank | templateText | semicolon => simpa [read, role] using h
  | plain => simpa [read, role] using over_settled h false
  | startsBranch | startsLoop => simpa [read, role] using (over_settled h true).push (by simp)
  | startsOther =>
      have owned : Frame.Over bottom (groups + 1) r.owner.2 := by
        unfold owner
        split
        · rename_i frames
          exact (frames ▸ h).pop (by simp)
        · rename_i frames
          exact (frames ▸ h).pop (by simp)
        · exact h
      simpa [read, role] using owned
  | repeats =>
      have closed : Frame.Over bottom (groups + 1) r.afterWhile := by
        unfold afterWhile
        have before := over_settled h true
        split
        · rename_i frames
          rw [frames] at before
          split
          · exact before
          · exact before.pop (by simp)
        · exact before
      simpa [read, role] using closed
  | opens => exact absurd role noOpener
  | closes brace => exact absurd role (noCloser brace)

/-- **Balanced lexemes without a word of a statement outside their brackets** leave the frames as
they are. -/
theorem frames_run_of_exposed {awaited : List String} {l o : List Lexeme}
    (h : exposed awaited l = some o) (calm : ∀ x ∈ o, x.Avoids Fragment.statementTexts)
    (stacked : Frame.Over bottom awaited.length r.frames)
    (unsettled : awaited = [] → r.ending ≠ .semicolon) :
    (r.run l).frames = bottom ∧ (r.run l).ending ≠ .semicolon := by
  induction l generalizing awaited r o with
  | nil =>
      cases awaited with
      | nil => exact ⟨stacked, unsettled rfl⟩
      | cons closer awaited => simp [exposed] at h
  | cons x l ih =>
      cases kind : x.bracketing with
      | opens closer =>
          have role : x.branchRole = .opens := by
            rw [x.branchRole_of_bracket (by simp [kind]), kind]
            rfl
          have inner : exposed (closer :: awaited) l = some o := by simpa [exposed, kind] using h
          have settled : Frame.Over bottom awaited.length (r.settled false) := by
            cases awaited with
            | nil => rwa [settled_false (unsettled rfl)]
            | cons innermost awaited => exact over_settled stacked false
          exact ih (r := r.read x) inner calm (by simpa [read, role] using settled.group) (by simp)
      | closes closer =>
          have role : x.branchRole = .closes (closer = "\x7d") := by
            rw [x.branchRole_of_bracket (by simp [kind]), kind]
            rfl
          cases awaited with
          | nil => simp [exposed, kind] at h
          | cons innermost awaited =>
              obtain ⟨-, outer⟩ : closer = innermost ∧ exposed awaited l = some o := by
                simpa [exposed, kind] using h
              have closed : Frame.Over bottom awaited.length (r.read x).frames := by
                simpa [read, role] using stacked.close
              refine ih (r := r.read x) outer calm closed fun _ => ?_
              simp only [read, role]
              split <;> simp
      | plain =>
          cases awaited with
          | cons innermost awaited =>
              have inner : exposed (innermost :: awaited) l = some o := by
                simpa [exposed, kind] using h
              exact ih (r := r.read x) inner calm (over_read stacked kind) (by simp)
          | nil =>
              obtain ⟨p, rest, rfl⟩ : ∃ p, exposed [] l = some p ∧ x :: p = o := by
                simpa [exposed, kind] using h
              obtain ⟨free, later⟩ := List.forall_mem_cons.1 calm
              have kept : r.settled false = r.frames := settled_false (unsettled rfl)
              refine ih (r := r.read x) rest later ?_ fun _ => ?_
              · rcases x.branchRole_of_avoids kind free with role | role | role
                · simpa [read, role] using stacked
                · simpa [read, role] using stacked
                · simpa [read, role, kept] using stacked
              · rcases x.branchRole_of_avoids kind free with role | role | role
                · simpa [read, role] using unsettled rfl
                · simp [read, role]
                · simp [read, role]

/-! ## Parts of statements -/

theorem run_calm {l : List Lexeme} (h : ExposesOnly (Lexeme.Avoids Fragment.statementTexts) l)
    (unsettled : r.ending ≠ .semicolon) :
    (r.run l).frames = r.frames ∧ (r.run l).ending ≠ .semicolon := by
  obtain ⟨o, reads, calm⟩ := h
  exact frames_run_of_exposed reads calm rfl fun _ => unsettled

end BranchReader

/-- Lexemes after which a statement goes on. -/
def Transparent (l : List Lexeme) : Prop :=
  ∀ r : BranchReader, r.ending = .none → (r.run l).frames = r.frames ∧ (r.run l).ending = .none

namespace Transparent

variable {l m : List Lexeme}

theorem append (left : Transparent l) (right : Transparent m) : Transparent (l ++ m) := by
  intro r within
  obtain ⟨first, still⟩ := left r within
  obtain ⟨second, done⟩ := right (r.run l) still
  rw [BranchReader.run_append]
  exact ⟨second.trans first, done⟩

/-- A word that is no word of a statement. -/
theorem word {x : Lexeme} (plain : x.bracketing = .plain)
    (calm : x.Avoids Fragment.statementTexts) : Transparent [x] := by
  intro r within
  rcases x.branchRole_of_avoids plain calm with role | role | role <;>
    simp [BranchReader.read, role, BranchReader.settled, within]

theorem token {text : String} (free : text ∉ Fragment.structuralTexts) :
    Transparent [.verbatim text] := by
  have subset : bracketTexts ⊆ Fragment.structuralTexts ∧
      Fragment.statementTexts ⊆ Fragment.structuralTexts := by decide
  have avoids : (Lexeme.verbatim text).Avoids Fragment.structuralTexts :=
    Lexeme.avoids_verbatim.2 free
  exact word (avoids.mono subset.1).bracketing (avoids.mono subset.2)

/-- The `while` in front of the body of a loop. -/
theorem repeats : Transparent [.verbatim "while"] := by
  intro r within
  refine ⟨?_, rfl⟩
  show r.afterWhile = r.frames
  simp only [BranchReader.afterWhile, BranchReader.settled, within]
  split <;> simp_all

theorem paren (inner : Balanced l) : Transparent (.verbatim "(" :: l ++ [.verbatim ")"]) := by
  intro r within
  refine ⟨(BranchReader.run_calm inner.paren (by simp [within])).1, ?_⟩
  rw [BranchReader.run_append]
  rfl

end Transparent

/-- Lexemes of a statement: a statement has ended after them, and of what they have opened only
`if`s are still open, and those only if the statement is `bare`. -/
def Concluded (bare : Bool) (l : List Lexeme) : Prop :=
  ∀ r : BranchReader, r.ending = .none → ∃ open_, (r.run l).frames = open_ ++ r.frames ∧
    (∀ frame ∈ open_, frame.isBranch = true) ∧ (bare = false → open_ = []) ∧
    (r.run l).ending ≠ .none

namespace Concluded

variable {bare : Bool} {l m : List Lexeme}

/-- What ends in a semicolon or in a brace. -/
theorem of_frames (frames : ∀ r : BranchReader, r.ending = .none → (r.run l).frames = r.frames)
    (ends : ∀ r : BranchReader, (r.run l).ending ≠ .none) : Concluded bare l := fun r within =>
  ⟨[], frames r within, by simp, fun _ => rfl, ends r⟩

theorem semicolon (h : ExposesOnly (Lexeme.Avoids Fragment.statementTexts) l) :
    Concluded bare (l ++ [.verbatim ";"]) := by
  refine of_frames (fun r within => ?_) fun r => ?_
  · rw [BranchReader.run_append]
    exact (BranchReader.run_calm h (by simp [within])).1
  · rw [BranchReader.run_append]
    exact Ending.noConfusion

theorem brace (h : ExposesOnly (Lexeme.Avoids Fragment.statementTexts) (l ++ [.verbatim "\x7d"])) :
    Concluded bare (l ++ [.verbatim "\x7d"]) := by
  refine of_frames (fun r within => (BranchReader.run_calm h (by simp [within])).1) fun r => ?_
  rw [BranchReader.run_append]
  exact Ending.noConfusion

theorem after (head : Transparent l) (body : Concluded bare m) : Concluded bare (l ++ m) := by
  intro r within
  obtain ⟨frames, still⟩ := head r within
  obtain ⟨left, whole, branches, closed, ends⟩ := body (r.run l) still
  rw [BranchReader.run_append]
  exact ⟨left, by rw [whole, frames], branches, closed, ends⟩

theorem doWhile {test : List Lexeme} (body : Concluded bare l) (balanced : Balanced test) :
    Concluded false (.verbatim "do" :: l ++ .verbatim "while" ::
      (.verbatim "(" :: test ++ [.verbatim ")"]) ++ [.verbatim ";"]) := by
  have closes (r : BranchReader) (open_ outer : List Frame)
      (frames : r.frames = open_ ++ .loop :: outer)
      (branches : ∀ frame ∈ open_, frame.isBranch = true) (ends : r.ending ≠ .none) :
      r.afterWhile = outer := by
    have settled : r.settled true = .loop :: outer := by
      have dropped : r.frames.dropWhile Frame.isBranch = .loop :: outer := by
        rw [frames, List.dropWhile_append_of_pos branches]
        rfl
      unfold BranchReader.settled
      split <;> simp_all
    simp [BranchReader.afterWhile, settled, ends]
  refine of_frames (fun r within => ?_) fun r => ?_
  · have inLoop : (r.read (.verbatim "do")).frames = .loop :: r.frames := by
      show Frame.loop :: r.settled true = _
      simp [BranchReader.settled, within]
    obtain ⟨open_, frames, branches, -, ends⟩ := body (r.read (.verbatim "do")) rfl
    rw [inLoop] at frames
    have closed := closes _ open_ r.frames frames branches ends
    obtain ⟨head, -⟩ := Transparent.paren balanced
      (((r.read (.verbatim "do")).run l).read (.verbatim "while")) rfl
    simp only [BranchReader.run_append, BranchReader.run_cons, BranchReader.run_nil] at head ⊢
    exact head.trans closed
  · rw [BranchReader.run_append]
    exact Ending.noConfusion

/-- An `if` without an `else` stays open. -/
theorem branch {test : List Lexeme} (balanced : Balanced test) (consequent : Concluded bare l) :
    Concluded true (.verbatim "if" :: (.verbatim "(" :: test ++ [.verbatim ")"]) ++ l) := by
  intro r within
  have frames : (r.read (.verbatim "if")).frames = .branch r.ifs :: r.frames := by
    show Frame.branch r.ifs :: r.settled true = _
    simp [BranchReader.settled, within]
  obtain ⟨open_, whole, branches, -, ends⟩ :=
    (consequent.after (Transparent.paren balanced)) (r.read (.verbatim "if")) rfl
  rw [frames] at whole
  refine ⟨open_ ++ [.branch r.ifs], ?_, ?_, by simp, ends⟩
  · simpa using whole
  · exact List.forall_mem_append.2 ⟨branches, List.forall_mem_singleton.2 rfl⟩

end Concluded

theorem BranchReader.owner_of_frames {r : BranchReader} {number : Nat} {outer : List Frame}
    (frames : r.frames = .branch number :: outer) (ends : r.ending ≠ .none) :
    r.owner = (some number, outer) := by
  cases ending : r.ending with
  | none => exact absurd ending ends
  | semicolon | brace => simp [owner, ending, frames]

/-- **The `else` behind a finished consequent** belongs to the `if` in front of it, whatever has
been read before. -/
theorem BranchReader.owner_of_concluded {test l : List Lexeme} (balanced : Balanced test)
    (consequent : Concluded false l) (r : BranchReader) :
    (r.run (.verbatim "if" :: (.verbatim "(" :: test ++ [.verbatim ")"]) ++ l)).owner =
      (some r.ifs, r.settled true) := by
  obtain ⟨open_, whole, -, closed, ends⟩ :=
    (consequent.after (Transparent.paren balanced)) (r.read (.verbatim "if")) rfl
  obtain rfl := closed rfl
  exact owner_of_frames whole ends

theorem Concluded.fork {bare : Bool} {test l m : List Lexeme} (balanced : Balanced test)
    (consequent : Concluded false l) (alternate : Concluded bare m) :
    Concluded bare (.verbatim "if" :: (.verbatim "(" :: test ++ [.verbatim ")"]) ++ l ++
      .verbatim "else" :: m) := by
  intro r within
  have owner := BranchReader.owner_of_concluded balanced consequent r
  generalize .verbatim "if" :: (.verbatim "(" :: test ++ [.verbatim ")"]) ++ l = head at owner ⊢
  obtain ⟨open_, frames, rest⟩ := alternate ((r.run head).read (.verbatim "else")) rfl
  have outer : ((r.run head).read (.verbatim "else")).frames = r.frames := by
    show (r.run head).owner.2 = r.frames
    simp [owner, BranchReader.settled, within]
  rw [outer] at frames
  rw [BranchReader.run_append]
  exact ⟨open_, frames, rest⟩

/-! ## Counting -/

/-- How many `if`s there are. -/
def ifsIn (l : List Lexeme) : Nat := l.countP (·.branchRole = .startsBranch)

/-- How many `else`s there are. -/
def elsesIn (l : List Lexeme) : Nat := l.countP (·.branchRole = .startsOther)

namespace BranchReader

variable {r : BranchReader}

theorem ifs_run (l : List Lexeme) : (r.run l).ifs = r.ifs + ifsIn l := by
  induction l generalizing r with
  | nil => rfl
  | cons x l ih =>
      rw [run_cons, ih, ifsIn, ifsIn, List.countP_cons]
      cases role : x.branchRole with
      | startsBranch => simp only [read, role, decide_true, if_true]; omega
      | _ => simp [read, role]

/-- One more `if` or none is found for every `else`. -/
theorem owners_run (l : List Lexeme) :
    ∃ found, (r.run l).owners = r.owners ++ found ∧ found.length = elsesIn l := by
  induction l generalizing r with
  | nil => exact ⟨[], by simp, rfl⟩
  | cons x l ih =>
      obtain ⟨found, owners, length⟩ := ih (r := r.read x)
      rw [run_cons, owners, elsesIn, List.countP_cons]
      have count : elsesIn l = l.countP (·.branchRole = .startsOther) := rfl
      cases role : x.branchRole with
      | startsOther => exact ⟨r.owner.1 :: found, by simp [read, role], by simp [length, count]⟩
      | _ => exact ⟨found, by simp [read, role], by simp [length, count]⟩

end BranchReader

/-- For each `else` of a script the number of the `if` that it belongs to. -/
def ownersIn (l : List Lexeme) : List (Option Nat) := (BranchReader.start.run l).owners

/-- What is found for an `else` in its place. -/
theorem ownersIn_else (before after : List Lexeme) :
    (ownersIn (before ++ .verbatim "else" :: after))[elsesIn before]? =
      some (BranchReader.start.run before).owner.1 := by
  obtain ⟨found, owners, length⟩ := BranchReader.owners_run (r := .start) before
  obtain ⟨later, rest, -⟩ :=
    BranchReader.owners_run (r := (BranchReader.start.run before).read (.verbatim "else")) after
  have here : ((BranchReader.start.run before).read (.verbatim "else")).owners =
      (BranchReader.start.run before).owners ++ [(BranchReader.start.run before).owner.1] := rfl
  have first : (BranchReader.start.run before).owners = found := by
    simpa [BranchReader.start] using owners
  rw [ownersIn, BranchReader.run_append, BranchReader.run_cons, rest, here, first, ← length]
  simp

end EcmaScribe
