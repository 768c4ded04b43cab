/-
# EcmaScribe.Proofs.Fragment.VarNames -- the names of variables in a fragment

The rules of a script move the names of variables about without looking at them: they put tokens
around them, leave out children that write nothing, and put parentheses in.  So the names that a
fragment writes can be read off its shape (`Fragment.varNames`), and each phrase has those of
its parts, in the order of its arguments.  `Fragment.filter_lexemes` ties this to the lexemes that
are written.

A name that is the empty text is not written and does not count.
-/
import EcmaScribe.Proofs.Fragment.Lexemes
import Mathlib.Data.List.Basic

namespace EcmaScribe

set_option autoImplicit false

/-- The name of a variable, other than the empty text. -/
def Lexeme.isVariable : Lexeme → Bool
  | name role text => role.isVariable && !text.isEmpty
  | verbatim _ | number _ | string _ | quoted _ | regExp .. | chunk .. | directive _ => false

/-- What is spelled as the empty text is not the name of a variable. -/
theorem Lexeme.isVariable_of_isBlank {l : Lexeme} (blank : l.isBlank = true) :
    l.isVariable = false := by
  cases l with
  | name role text => simp [isVariable, show text.isEmpty = true from blank]
  | _ => rfl

namespace Fragment

/-! ## Names in a fragment -/

mutual

/-- The names of variables that a fragment writes, in order. -/
def varNames : Fragment → List Lexeme
  | lexeme l => if l.isVariable then [l] else []
  | seq children | lines children | commaSep children => varNamesAll children
  | paren inner | bracket inner | brace inner | indent inner | noIn inner | containsIn inner
  | marked _ inner => inner.varNames
  | empty | semicolon | optionalSemicolon | space | lineBreak => []

def varNamesAll : List Fragment → List Lexeme
  | [] => []
  | f :: rest => f.varNames ++ varNamesAll rest

end

theorem varNamesAll_eq (children : List Fragment) :
    varNamesAll children = children.flatMap varNames := by
  induction children with
  | nil => simp [varNamesAll]
  | cons f rest ih => simp [varNamesAll, ih]

mutual

/-- A blank fragment holds no name. -/
theorem varNames_of_isBlank : (f : Fragment) → f.isBlank = true → f.varNames = []
  | empty, _ | space, _ | lineBreak, _ => by simp [varNames]
  | lexeme l, blank => by
      simp only [isBlank] at blank
      simp [varNames, Lexeme.isVariable_of_isBlank blank]
  | seq children, blank | lines children, blank => by
      simp only [isBlank] at blank
      simpa [varNames] using varNamesAll_of_allBlank children blank
  | commaSep children, blank => by
      simp only [isBlank, List.isEmpty_iff] at blank
      simp [varNames, blank, varNamesAll]
  | indent inner, blank | noIn inner, blank | containsIn inner, blank | marked _ inner, blank => by
      simp only [isBlank] at blank
      simpa [varNames] using varNames_of_isBlank inner blank
  | paren _, blank | bracket _, blank | brace _, blank | semicolon, blank
  | optionalSemicolon, blank => by simp [isBlank] at blank

theorem varNamesAll_of_allBlank : (children : List Fragment) → allBlank children = true →
    varNamesAll children = []
  | [], _ => by simp [varNamesAll]
  | f :: rest, blank => by
      simp only [allBlank, Bool.and_eq_true] at blank
      simp [varNamesAll, varNames_of_isBlank f blank.1, varNamesAll_of_allBlank rest blank.2]

end

/-- Leaving out blank children leaves out no name. -/
theorem flatMap_varNames_filter (children : List Fragment) :
    (children.filter (!·.isBlank)).flatMap varNames = children.flatMap varNames := by
  induction children with
  | nil => rfl
  | cons f rest ih =>
      cases blank : f.isBlank with
      | true => simp [blank, ih, varNames_of_isBlank f blank]
      | false => simp [blank, ih]

section Lists

variable {children : List Fragment} {b : Bool}
  (given : ∀ f ∈ children, (f.lexemes b).filter Lexeme.isVariable = f.varNames)

include given

theorem filter_flatMap_lexemes :
    (children.flatMap (lexemes b)).filter Lexeme.isVariable = children.flatMap varNames := by
  rw [List.filter_flatMap]
  exact List.flatMap_congr given

theorem filter_lexemesCommas (first : Bool) :
    (lexemesCommas b first children).filter Lexeme.isVariable = children.flatMap varNames := by
  induction children generalizing first with
  | nil => rfl
  | cons f rest ih =>
      have later := ih (fun g member => given g (List.mem_cons_of_mem f member)) false
      cases first <;>
        simp [lexemesCommas, List.filter_append, given f List.mem_cons_self, later,
          Lexeme.isVariable]

end Lists

mutual

/-- The names of variables among the lexemes of a fragment. -/
theorem filter_lexemes : (f : Fragment) → (b : Bool) →
    (f.lexemes b).filter Lexeme.isVariable = f.varNames
  | empty, _ | space, _ | lineBreak, _ => by simp [varNames]
  | semicolon, _ | optionalSemicolon, _ => by simp [varNames, Lexeme.isVariable]
  | lexeme l, _ => by
      cases kind : l.isVariable <;> simp [varNames, kind]
  | seq children, b => by
      rw [lexemes_seq, varNames, varNamesAll_eq]
      exact filter_flatMap_lexemes fun f member => filter_lexemes_of_mem children f member b
  | lines children, b => by
      rw [lexemes_lines, varNames, varNamesAll_eq, ← flatMap_varNames_filter]
      exact filter_flatMap_lexemes fun f member =>
        filter_lexemes_of_mem children f (List.mem_filter.1 member).1 b
  | commaSep children, b => by
      rw [lexemes_commaSep, varNames, varNamesAll_eq]
      exact filter_lexemesCommas (fun f member => filter_lexemes_of_mem children f member b) true
  | paren inner, _ | bracket inner, _ | brace inner, _ => by
      simp [varNames, List.filter_append, filter_lexemes inner false, Lexeme.isVariable]
  | indent inner, b => by
      rw [lexemes_indent, varNames]
      cases blank : inner.isBlank with
      | true => simp [varNames_of_isBlank inner blank]
      | false => simpa using filter_lexemes inner b
  | noIn inner, b => by simpa [varNames] using filter_lexemes inner true
  | containsIn inner, b => by
      cases b <;>
        simp [varNames, lexemes_containsIn, List.filter_append, filter_lexemes inner false,
          Lexeme.isVariable]
  | marked _ inner, b => by simpa [varNames] using filter_lexemes inner b

theorem filter_lexemes_of_mem : (children : List Fragment) → (f : Fragment) → f ∈ children →
    (b : Bool) → (f.lexemes b).filter Lexeme.isVariable = f.varNames
  | [], _, member, _ => by cases member
  | g :: rest, f, member, b => by
      rcases List.mem_cons.1 member with same | later
      · rw [same]
        exact filter_lexemes g b
      · exact filter_lexemes_of_mem rest f later b

end

/-! ## Names in the parts of a phrase -/

@[simp] theorem varNames_empty : empty.varNames = [] := by simp [varNames]

@[simp] theorem varNames_space : space.varNames = [] := by simp [varNames]

@[simp] theorem varNames_lineBreak : lineBreak.varNames = [] := by simp [varNames]

@[simp] theorem varNames_semicolon : semicolon.varNames = [] := by simp [varNames]

@[simp] theorem varNames_optionalSemicolon : optionalSemicolon.varNames = [] := by
  simp [varNames]

@[simp] theorem varNames_lexeme (l : Lexeme) :
    (lexeme l).varNames = if l.isVariable then [l] else [] := by simp [varNames]

@[simp] theorem varNames_token (text : String) : (token text).varNames = [] :=
  varNames_lexeme _

variable (f g : Fragment) (fs : List Fragment)

@[simp] theorem varNames_paren : (paren f).varNames = f.varNames := by simp [varNames]

@[simp] theorem varNames_bracket : (bracket f).varNames = f.varNames := by simp [varNames]

@[simp] theorem varNames_brace : (brace f).varNames = f.varNames := by simp [varNames]

@[simp] theorem varNames_indent : (indent f).varNames = f.varNames := by simp [varNames]

@[simp] theorem varNames_noIn : (noIn f).varNames = f.varNames := by simp [varNames]

@[simp] theorem varNames_containsIn : (containsIn f).varNames = f.varNames := by
  simp [varNames]

@[simp] theorem varNames_marked (mark : Mark) : (marked mark f).varNames = f.varNames := by
  simp [varNames]

@[simp] theorem varNames_seq : (seq fs).varNames = fs.flatMap varNames := by
  simp [varNames, varNamesAll_eq]

@[simp] theorem varNames_lines : (lines fs).varNames = fs.flatMap varNames := by
  simp [varNames, varNamesAll_eq]

@[simp] theorem varNames_commaSep : (commaSep fs).varNames = fs.flatMap varNames := by
  simp [varNames, varNamesAll_eq]

@[simp] theorem varNames_spaced : (spaced fs).varNames = fs.flatMap varNames := by
  cases fs with
  | nil => simp [spaced]
  | cons f rest => simp [spaced, List.flatMap_assoc]

@[simp] theorem varNames_statement : (statement f).varNames = f.varNames := by
  simp [statement]

@[simp] theorem varNames_parenIf (condition : Bool) :
    (parenIf condition f).varNames = f.varNames := by
  cases condition <;> simp [parenIf]

@[simp] theorem varNames_markedIf (condition : Bool) (mark : Mark) :
    (markedIf condition mark f).varNames = f.varNames := by
  cases condition <;> simp [markedIf]

@[simp] theorem varNames_atLeast (required : Precedence) (node : Expression) :
    (atLeast required node f).varNames = f.varNames := by
  unfold atLeast
  split <;> simp

@[simp] theorem varNames_block : (block fs).varNames = fs.flatMap varNames := by
  unfold block braceLines
  split
  · rename_i blank
    have nothing := varNamesAll_of_allBlank fs blank
    rw [varNamesAll_eq] at nothing
    simp [nothing]
  · simp

@[simp] theorem varNames_defaulted (node : Expression) :
    (defaulted f node g).varNames = f.varNames ++ g.varNames := by
  simp [defaulted]

@[simp] theorem varNames_keyed : (keyed f g).varNames = f.varNames ++ g.varNames := by
  simp [keyed]

@[simp] theorem varNames_rest : (rest f).varNames = f.varNames := by simp [rest]

/-! ## Names in lists and members -/

@[simp] theorem varNames_elements (items : List (Option Fragment)) :
    (elements items).varNames = items.flatMap fun item => item.toList.flatMap varNames := by
  have list : (commaSep (items.map (·.getD empty))).varNames =
      items.flatMap fun item => item.toList.flatMap varNames := by
    rw [varNames_commaSep, List.flatMap_map]
    refine List.flatMap_congr fun item _ => ?_
    cases item <;> simp
  unfold elements
  split <;> simp only [varNames_seq, List.flatMap_cons, List.flatMap_nil, list, varNames_token,
    List.append_nil]

@[simp] theorem varNames_arrayPattern (items : List (Option Fragment))
    (remainder : Option Fragment) : (arrayPattern items remainder).varNames =
      items.flatMap (fun item => item.toList.flatMap varNames) ++
        remainder.toList.flatMap varNames := by
  cases remainder <;> simp [arrayPattern]

@[simp] theorem varNames_objectBraces : (objectBraces fs).varNames = fs.flatMap varNames := by
  simp [objectBraces]

@[simp] theorem varNames_memberObject (object : Node .subject) :
    (memberObject object f).varNames = f.varNames := by
  simp [memberObject]

@[simp] theorem varNames_staticMember (object : Node .subject) (property : String) :
    (staticMember object f property).varNames = f.varNames := by
  simp [staticMember, Lexeme.isVariable, NameRole.isVariable]

@[simp] theorem varNames_computedMember (object : Node .subject) :
    (computedMember object f g).varNames = f.varNames ++ g.varNames := by
  simp [computedMember]

/-! ## Names in functions and classes -/

@[simp] theorem flatMap_varNames_asyncHead (isAsync : Bool) :
    (asyncHead isAsync).flatMap varNames = [] := by
  cases isAsync <;> simp [asyncHead]

@[simp] theorem flatMap_varNames_generatorStar (isGenerator : Bool) :
    (generatorStar isGenerator).flatMap varNames = [] := by
  cases isGenerator <;> simp [generatorStar]

@[simp] theorem varNames_function (isAsync isGenerator : Bool) (name : Option Fragment) :
    (function isAsync isGenerator name f g).varNames =
      name.toList.flatMap varNames ++ f.varNames ++ g.varNames := by
  cases name <;> simp [function]

@[simp] theorem varNames_method (isAsync isGenerator : Bool) (name : Fragment) :
    (method isAsync isGenerator name f g).varNames =
      name.varNames ++ f.varNames ++ g.varNames := by
  simp [method]

@[simp] theorem varNames_accessor (keyword : String) (name : Fragment) :
    (accessor keyword name f g).varNames = name.varNames ++ f.varNames ++ g.varNames := by
  simp [accessor]

@[simp] theorem varNames_parameterList (remainder : Option Fragment) :
    (parameterList fs remainder).varNames =
      fs.flatMap varNames ++ remainder.toList.flatMap varNames := by
  cases remainder <;> simp [parameterList]

@[simp] theorem varNames_class (name heritage : Option Fragment) :
    (class_ name heritage fs).varNames =
      name.toList.flatMap varNames ++ heritage.toList.flatMap varNames ++ fs.flatMap varNames := by
  cases name <;> cases heritage <;> simp [class_]

/-! ## Names in expressions -/

@[simp] theorem varNames_binary (left : Expression) (operator : BinaryOperator)
    (right : Expression) : (binary left operator right f g).varNames =
      f.varNames ++ g.varNames := by
  have operands : (binaryOperands left operator right f g).1.varNames = f.varNames ∧
      (binaryOperands left operator right f g).2.varNames = g.varNames := by
    unfold binaryOperands
    dsimp only
    split <;> simp
  unfold binary
  generalize binaryOperands left operator right f g = parts at operands ⊢
  obtain ⟨l, r⟩ := parts
  dsimp only at operands ⊢
  split <;> simp [operands]

@[simp] theorem varNames_unary (operator : UnaryOperator) (operand : Expression) :
    (unary operator operand f).varNames = f.varNames := by
  cases operator <;> simp [unary, UnaryOperator.isWord]

/-- The names in a piece of a template. -/
@[simp] def TemplatePiece.varNames : TemplatePiece → List Lexeme
  | text _ => []
  | code f => f.varNames

theorem flatMap_varNames_pieces (total done : Nat) (pieces : List TemplatePiece) :
    (TemplatePiece.fragments total done pieces).flatMap varNames =
      pieces.flatMap TemplatePiece.varNames := by
  induction pieces generalizing done with
  | nil => rfl
  | cons piece pieces ih =>
      cases piece <;>
        simp [TemplatePiece.fragments, TemplatePiece.varNames, ih, Lexeme.isVariable]

@[simp] theorem varNames_template (tag : Option Fragment) (pieces : List TemplatePiece) :
    (template tag pieces).varNames =
      tag.toList.flatMap varNames ++ pieces.flatMap TemplatePiece.varNames := by
  cases tag <;> simp [template, flatMap_varNames_pieces]

@[simp] theorem varNames_propertyKey (key : String) : (propertyKey key).varNames = [] := by
  unfold propertyKey
  split
  · exact varNames_lexeme _
  · cases Double.ofKey? key.toList <;> exact varNames_lexeme _

/-! ## Names in imports and exports -/

@[simp] theorem varNames_specifierName (name : String) : (specifierName name).varNames = [] := by
  simp [specifierName, Lexeme.isVariable, NameRole.isVariable]

@[simp] theorem varNames_renamed (name : Option Fragment) :
    (renamed name f).varNames = name.toList.flatMap varNames ++ f.varNames := by
  cases name <;> simp [renamed]

@[simp] theorem flatMap_varNames_fromClause (specifier : String) :
    (fromClause specifier).flatMap varNames = [] := by
  simp [fromClause, Lexeme.isVariable]

@[simp] theorem varNames_importNames (default : Option Fragment) (specifier : String) :
    (importNames default fs specifier).varNames =
      default.toList.flatMap varNames ++ fs.flatMap varNames := by
  cases default <;> cases fs <;> simp [importNames, Lexeme.isVariable]

@[simp] theorem varNames_importNamespace (default : Option Fragment) (specifier : String) :
    (importNamespace default f specifier).varNames =
      default.toList.flatMap varNames ++ f.varNames := by
  cases default <;> simp [importNamespace]

end Fragment

end EcmaScribe
