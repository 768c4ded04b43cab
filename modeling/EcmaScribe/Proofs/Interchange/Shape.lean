/-
# EcmaScribe.Proofs.Interchange.Shape -- every node has a shape of the schema

The schema lists the kinds of each category (`Form.variants`).  Three facts tie it to trees
and to their values, and everything proved about interchange rests on them alone:

* `Form.isSound_of`: the kinds of a category have different names, and so have the fields of
  a kind; no field is called like the tag; only a flag that may be missing is called
  `isAsync`;
* `Variant.toJson_build`: a node of a kind is written as the fields of that kind, behind its
  tag where the category has several;
* `Node.shaped`: every node is a sequence, an optional child or of one of those kinds, and so
  are its parts.

`Node.Shaped` is the induction that proofs about interchange use: five cases in place of one
for each constructor.
-/
import EcmaScribe.Interchange.Encode

namespace EcmaScribe

set_option autoImplicit false

variable {c d : Category}

/-! ## Fields and records -/

namespace FieldSort

def encode : (sort : FieldSort) → sort.Value → Json
  | text, value => .string value
  | optionalText, value => Json.optionalText value
  | flag, value | optionalFlag, value => .bool value
  | number, value => .number (.float value)
  | binaryOperator, value => Json.word value
  | unaryOperator, value => Json.word value
  | updateOperator, value => Json.word value
  | compoundOperator, value => Json.word value
  | declarationKind, value => Json.word value
  | node _, value => value.toJson

def nodes : (sort : FieldSort) → sort.Value → List ((c : Category) × Node c)
  | node c, value => [⟨c, value⟩]
  | _, _ => []

/-- What holds of the value, if it is a node. -/
@[reducible]
def Holds (P : (c : Category) → Node c → Prop) : (sort : FieldSort) → sort.Value → Prop
  | node c, value => P c value
  | _, _ => True

theorem forall_mem_nodes {P : (c : Category) → Node c → Prop} (sort : FieldSort)
    (value : sort.Value) :
    (∀ child ∈ sort.nodes value, P child.1 child.2) ↔ sort.Holds P value := by
  cases sort <;> simp [nodes]

end FieldSort

namespace Record

def encode : (fields : List Field) → Record fields → List (String × Json)
  | [], () => []
  | field :: fields, (value, record) =>
      (field.name, field.sort.encode value) :: encode fields record

def nodes : (fields : List Field) → Record fields → List ((c : Category) × Node c)
  | [], () => []
  | field :: fields, (value, record) => field.sort.nodes value ++ nodes fields record

/-- What holds of each field with its value. -/
@[reducible]
def Each (P : (field : Field) → field.sort.Value → Prop) :
    (fields : List Field) → Record fields → Prop
  | [], () => True
  | field :: fields, (value, record) => P field value ∧ Each P fields record

theorem Each.imp {P Q : (field : Field) → field.sort.Value → Prop} :
    {fields : List Field} → {record : Record fields} →
    (∀ field ∈ fields, ∀ value, P field value → Q field value) →
    Each P fields record → Each Q fields record
  | [], (), _, _ => trivial
  | field :: _, (value, _), step, ⟨head, tail⟩ =>
      ⟨step field List.mem_cons_self value head,
        tail.imp fun field h => step field (List.mem_cons_of_mem _ h)⟩

theorem forall_mem_nodes {P : (c : Category) → Node c → Prop} :
    (fields : List Field) → (record : Record fields) →
    ((∀ child ∈ nodes fields record, P child.1 child.2) ↔
      Each (fun field => field.sort.Holds P) fields record)
  | [], () => by simp [nodes]
  | field :: fields, (value, record) => by
      simp only [nodes, List.forall_mem_append, Each, FieldSort.forall_mem_nodes,
        forall_mem_nodes fields record]

theorem map_fst_encode :
    (fields : List Field) → (record : Record fields) →
    (encode fields record).map Prod.fst = fields.map Field.name
  | [], () => rfl
  | field :: fields, (_, record) => congrArg (field.name :: ·) (map_fst_encode fields record)

end Record

/-! ## Values as candidates -/

namespace Json

@[simp]
theorem node_candidate (json : Json) (c : Category) :
    json.candidate.node c = (Form.of c).decode true json.parts := by
  cases json <;> rfl

theorem memberCandidates_eq_map :
    (members : List (String × Json)) →
    memberCandidates members = members.map fun member => (member.1, member.2.candidate)
  | [] => rfl
  | (key, value) :: members =>
      congrArg ((key, value.candidate) :: ·) (memberCandidates_eq_map members)

/-- Candidates keep the values that they are made from. -/
theorem map_json_memberCandidates (members : List (String × Json)) :
    (memberCandidates members).map (fun member => (member.1, member.2.json)) = members := by
  induction members with
  | nil => rfl
  | cons member members ih =>
      obtain ⟨key, value⟩ := member
      have same : value.candidate.json = value := by
        cases value <;> rfl
      rw [memberCandidates, List.map_cons, same, ih]

end Json

/-! ## The kinds of a category -/

namespace Form

def layers : Form c → List (List (Variant c))
  | tagged _ variants => [variants]
  | union _ layers => layers
  | _ => []

def variants : Form c → List (Variant c)
  | record variant => [variant]
  | form => form.layers.flatten

/-- How the fields of a kind are written. -/
def wrap : Form c → String → List (String × Json) → Json
  | record _, _, members => .object members
  | _, name, members => .kind name members

end Form

theorem Form.decode_optional {form : Form c} {byIndex : Bool} {parts : Parts}
    (h : parts ≠ .scalar .null) :
    (Form.optional form).decode byIndex parts = (form.decode byIndex parts).map .some := by
  cases parts with
  | sequence | map => rfl
  | scalar found =>
      cases found with
      | null => exact absurd rfl h
      | _ => rfl

/-- Every kind is written as its fields, which each list of the schema shows by evaluation. -/
theorem Variant.toJson_build {variant : Variant c} (h : variant ∈ (Form.of c).variants)
    (record : Record variant.fields) :
    (variant.build record).toJson =
      (Form.of c).wrap variant.name (Record.encode variant.fields record) := by
  have written : ∀ variant ∈ (Form.of c).variants, ∀ record,
      (variant.build record).toJson =
        (Form.of c).wrap variant.name (Record.encode variant.fields record) := by
    cases c <;> repeat' first
      | refine List.forall_mem_cons.2 ⟨?_, ?_⟩
      | exact List.forall_mem_nil _
      | exact fun _ => rfl
  exact written variant h record

/-! ## Soundness of the schema -/

/-- The key that may be left out with the value `false`. -/
def asyncKey : String := "isAsync"

namespace Category

def isOption : Category → Bool
  | option _ => true
  | _ => false

/-- No option of an option, which could not be told from an absent one. -/
def isSettled : Category → Bool
  | list c => c.isSettled
  | option c => !c.isOption && c.isSettled
  | _ => true

end Category

def FieldSort.isSettled : FieldSort → Bool
  | node c => c.isSettled
  | _ => true

def Field.IsSound (field : Field) : Prop :=
  field.name ≠ tagKey ∧ (field.name = asyncKey → field.sort = .optionalFlag) ∧
    field.sort.isSettled

instance (field : Field) : Decidable field.IsSound :=
  inferInstanceAs (Decidable (_ ∧ _ ∧ _))

def Variant.IsSound (variant : Variant c) : Prop :=
  (variant.fields.map Field.name).Nodup ∧ ∀ field ∈ variant.fields, field.IsSound

instance (variant : Variant c) : Decidable variant.IsSound :=
  inferInstanceAs (Decidable (_ ∧ _))

def Form.IsSound (form : Form c) : Prop :=
  (form.variants.map Variant.name).Nodup ∧ ∀ variant ∈ form.variants, variant.IsSound

instance (form : Form c) : Decidable form.IsSound :=
  inferInstanceAs (Decidable (_ ∧ _))

theorem Form.isSound_of : (c : Category) → (Form.of c).IsSound
  | .list _ | .option _ => ⟨List.nodup_nil, List.forall_mem_nil _⟩
  | c => by cases c <;> first | decide +kernel | exact ⟨List.nodup_nil, List.forall_mem_nil _⟩

/-! ## Every node has a shape -/

namespace Node

/-- A node that is a sequence, an optional child or of a kind of the schema, in all its parts. -/
inductive Shaped : {c : Category} → Node c → Prop
  | nil {c : Category} : (nil : Node (.list c)).Shaped
  | cons {c : Category} {head : Node c} {tail : Node (.list c)} :
      head.Shaped → tail.Shaped → (cons head tail).Shaped
  | none {c : Category} : (none : Node (.option c)).Shaped
  | some {c : Category} {node : Node c} : node.Shaped → (some node).Shaped
  | kind {c : Category} {variant : Variant c} (offered : variant ∈ (Form.of c).variants)
      {record : Record variant.fields}
      (parts : ∀ child ∈ Record.nodes variant.fields record, child.2.Shaped) :
      (variant.build record).Shaped

namespace Shaped

variable {node : Node c}

theorem named (name : String) {variant : Variant c}
    (found : (Form.of c).variants.find? (fun variant => variant.name = name) =
      Option.some variant)
    (record : Record variant.fields) (built : variant.build record = node)
    (parts : Record.Each (fun field => field.sort.Holds fun _ node => node.Shaped)
      variant.fields record) :
    node.Shaped :=
  built ▸ .kind (List.mem_of_find?_eq_some found) ((Record.forall_mem_nodes _ _).2 parts)

theorem embed (h : node.Shaped) (base : (Form.of c).variants.isEmpty = false)
    (embed : Node c → Node d)
    (offered : ∀ variant ∈ (Form.of c).variants, variant.map embed ∈ (Form.of d).variants) :
    (embed node).Shaped := by
  cases h with
  | nil | cons | none | some => cases base
  | @kind _ variant hv record parts =>
      have : ((variant.map embed).build record).Shaped := .kind (offered variant hv) parts
      exact this

/-- A node of the only kind of its category, as one kind among several. -/
theorem embedRecord (h : node.Shaped) (embed : Node c → Node d) {variant : Variant c}
    (single : Form.of c = .record variant)
    (found : (Form.of d).variants.find? (fun other => other.name = variant.name) =
      Option.some (variant.map embed)) :
    (embed node).Shaped := by
  refine h.embed (by rw [single]; rfl) embed fun other hother => ?_
  rw [single] at hother
  cases List.mem_singleton.1 hother
  exact List.mem_of_find?_eq_some found

/-- A node of a category whose kinds a union tries after kinds of its own. -/
theorem embedUnion (h : node.Shaped) (embed : Node c → Node d)
    (base : (Form.of c).variants.isEmpty = false) {name : String} {front : List (Variant d)}
    (union : Form.of d =
      .union name (front :: (Form.of c).layers.map fun layer => layer.map (.map embed)))
    (layered : (Form.of c).variants = (Form.of c).layers.flatten) :
    (embed node).Shaped := by
  refine h.embed base embed fun variant hv => ?_
  rw [layered] at hv
  obtain ⟨layer, hlayer, hv⟩ := List.mem_flatten.1 hv
  rw [union]
  exact List.mem_append_right _
    (List.mem_flatten_of_mem (List.mem_map_of_mem hlayer) (List.mem_map_of_mem hv))

end Shaped

theorem shaped (node : Node c) : node.Shaped := by
  induction node with
  -- sequences and optional children
  | nil => exact .nil
  | cons head tail hhead htail => exact .cons hhead htail
  | none => exact .none
  | some node hnode => exact .some hnode
  -- names
  | boundName name => exact .named "BindingIdentifier" rfl (name, ()) rfl ⟨trivial, trivial⟩
  | usedName name => exact .named "IdentifierExpression" rfl (name, ()) rfl ⟨trivial, trivial⟩
  | assignedName name =>
      exact .named "AssignmentTargetIdentifier" rfl (name, ()) rfl ⟨trivial, trivial⟩
  -- programs and modules
  | script directives statements hdirectives hstatements =>
      exact .named "Script" rfl (directives, statements, ()) rfl ⟨hdirectives, hstatements, trivial⟩
  | moduleRoot directives items hdirectives hitems =>
      exact .named "Module" rfl (directives, items, ()) rfl ⟨hdirectives, hitems, trivial⟩
  | directive raw => exact .named "Directive" rfl (raw, ()) rfl ⟨trivial, trivial⟩
  | importNames default named specifier hdefault hnamed =>
      exact .named "Import" rfl (default, named, specifier, ()) rfl
        ⟨hdefault, hnamed, trivial, trivial⟩
  | importNamespace default space specifier hdefault hspace =>
      exact .named "ImportNamespace" rfl (default, space, specifier, ()) rfl
        ⟨hdefault, hspace, trivial, trivial⟩
  | exported declaration ih => exact .named "Export" rfl (declaration, ()) rfl ⟨ih, trivial⟩
  | exportAll specifier => exact .named "ExportAllFrom" rfl (specifier, ()) rfl ⟨trivial, trivial⟩
  | exportFrom named specifier ih =>
      exact .named "ExportFrom" rfl (named, specifier, ()) rfl ⟨ih, trivial, trivial⟩
  | exportLocals named ih => exact .named "ExportLocals" rfl (named, ()) rfl ⟨ih, trivial⟩
  | exportDefault body ih => exact .named "ExportDefault" rfl (body, ()) rfl ⟨ih, trivial⟩
  | itemStatement statement ih => exact ih.embedUnion .itemStatement rfl rfl rfl
  | importSpecifier name binding ih =>
      exact .named "ImportSpecifier" rfl (name, binding, ()) rfl ⟨trivial, ih, trivial⟩
  | exportFunction declaration ih => exact ih.embedRecord .exportFunction rfl rfl
  | exportClass declaration ih => exact ih.embedRecord .exportClass rfl rfl
  | exportVariables declaration ih => exact ih.embedRecord .exportVariables rfl rfl
  | exportFromSpecifier name exported =>
      exact .named "ExportFromSpecifier" rfl (name, exported, ()) rfl ⟨trivial, trivial, trivial⟩
  | exportLocalSpecifier name exported ih =>
      exact .named "ExportLocalSpecifier" rfl (name, exported, ()) rfl ⟨ih, trivial, trivial⟩
  | defaultFunction declaration ih => exact ih.embedRecord .defaultFunction rfl rfl
  | defaultClass declaration ih => exact ih.embedRecord .defaultClass rfl rfl
  | defaultExpression expression ih => exact ih.embedUnion .defaultExpression rfl rfl rfl
  -- statements
  | blockStatement block ih => exact .named "BlockStatement" rfl (block, ()) rfl ⟨ih, trivial⟩
  | breakTo label => exact .named "BreakStatement" rfl (label, ()) rfl ⟨trivial, trivial⟩
  | continueTo label => exact .named "ContinueStatement" rfl (label, ()) rfl ⟨trivial, trivial⟩
  | debugger => exact .named "DebuggerStatement" rfl () rfl trivial
  | doWhile body test hbody htest =>
      exact .named "DoWhileStatement" rfl (body, test, ()) rfl ⟨hbody, htest, trivial⟩
  | empty => exact .named "EmptyStatement" rfl () rfl trivial
  | evaluate expression ih =>
      exact .named "ExpressionStatement" rfl (expression, ()) rfl ⟨ih, trivial⟩
  | forIn left right body hleft hright hbody =>
      exact .named "ForInStatement" rfl (left, right, body, ()) rfl ⟨hleft, hright, hbody, trivial⟩
  | forOf left right body hleft hright hbody =>
      exact .named "ForOfStatement" rfl (left, right, body, ()) rfl ⟨hleft, hright, hbody, trivial⟩
  | forLoop init test update body hinit htest hupdate hbody =>
      exact .named "ForStatement" rfl (init, test, update, body, ()) rfl
        ⟨hinit, htest, hupdate, hbody, trivial⟩
  | ifElse test consequent alternate htest hconsequent halternate =>
      exact .named "IfStatement" rfl (test, consequent, alternate, ()) rfl
        ⟨htest, hconsequent, halternate, trivial⟩
  | labeled label body ih =>
      exact .named "LabeledStatement" rfl (label, body, ()) rfl ⟨trivial, ih, trivial⟩
  | returnValue value ih => exact .named "ReturnStatement" rfl (value, ()) rfl ⟨ih, trivial⟩
  | switch discriminant cases hdiscriminant hcases =>
      exact .named "SwitchStatement" rfl (discriminant, cases, ()) rfl
        ⟨hdiscriminant, hcases, trivial⟩
  | switchWithDefault discriminant before default after hdiscriminant hbefore hdefault hafter =>
      exact .named "SwitchStatementWithDefault" rfl (discriminant, before, default, after, ()) rfl
        ⟨hdiscriminant, hbefore, hdefault, hafter, trivial⟩
  | throw value ih => exact .named "ThrowStatement" rfl (value, ()) rfl ⟨ih, trivial⟩
  | tryCatch body handler hbody hhandler =>
      exact .named "TryCatchStatement" rfl (body, handler, ()) rfl ⟨hbody, hhandler, trivial⟩
  | tryFinally body handler finalizer hbody hhandler hfinalizer =>
      exact .named "TryFinallyStatement" rfl (body, handler, finalizer, ()) rfl
        ⟨hbody, hhandler, hfinalizer, trivial⟩
  | declare declaration ih =>
      exact .named "VariableDeclarationStatement" rfl (declaration, ()) rfl ⟨ih, trivial⟩
  | whileLoop test body htest hbody =>
      exact .named "WhileStatement" rfl (test, body, ()) rfl ⟨htest, hbody, trivial⟩
  | withObject object body hobject hbody =>
      exact .named "WithStatement" rfl (object, body, ()) rfl ⟨hobject, hbody, trivial⟩
  | functionStatement declaration ih => exact ih.embedRecord .functionStatement rfl rfl
  | classStatement declaration ih => exact ih.embedRecord .classStatement rfl rfl
  -- parts of statements
  | block statements ih => exact .named "Block" rfl (statements, ()) rfl ⟨ih, trivial⟩
  | loopVariables declaration ih => exact ih.embedRecord .loopVariables rfl rfl
  | loopTarget target ih => exact ih.embedUnion .loopTarget rfl rfl rfl
  | initVariables declaration ih => exact ih.embedRecord .initVariables rfl rfl
  | initExpression expression ih => exact ih.embedUnion .initExpression rfl rfl rfl
  | switchCase test consequent htest hconsequent =>
      exact .named "SwitchCase" rfl (test, consequent, ()) rfl ⟨htest, hconsequent, trivial⟩
  | switchDefault consequent ih =>
      exact .named "SwitchDefault" rfl (consequent, ()) rfl ⟨ih, trivial⟩
  | catchClause binding body hbinding hbody =>
      exact .named "CatchClause" rfl (binding, body, ()) rfl ⟨hbinding, hbody, trivial⟩
  | variableDeclaration kind declarators ih =>
      exact .named "VariableDeclaration" rfl (kind, declarators, ()) rfl ⟨trivial, ih, trivial⟩
  | declarator binding init hbinding hinit =>
      exact .named "VariableDeclarator" rfl (binding, init, ()) rfl ⟨hbinding, hinit, trivial⟩
  -- functions and classes
  | functionDeclaration isAsync isGenerator name params body hname hparams hbody =>
      exact .named "FunctionDeclaration" rfl (isAsync, isGenerator, name, params, body, ()) rfl
        ⟨trivial, trivial, hname, hparams, hbody, trivial⟩
  | classDeclaration name heritage elements hname hheritage helements =>
      exact .named "ClassDeclaration" rfl (name, heritage, elements, ()) rfl
        ⟨hname, hheritage, helements, trivial⟩
  | parameters items rest hitems hrest =>
      exact .named "FormalParameters" rfl (items, rest, ()) rfl ⟨hitems, hrest, trivial⟩
  | functionBody directives statements hdirectives hstatements =>
      exact .named "FunctionBody" rfl (directives, statements, ()) rfl
        ⟨hdirectives, hstatements, trivial⟩
  | arrowBlock body ih => exact ih.embedRecord .arrowBlock rfl rfl
  | arrowResult expression ih => exact ih.embedUnion .arrowResult rfl rfl rfl
  | classElement isStatic method ih =>
      exact .named "ClassElement" rfl (isStatic, method, ()) rfl ⟨trivial, ih, trivial⟩
  | method isAsync isGenerator name params body hname hparams hbody =>
      exact .named "Method" rfl (isAsync, isGenerator, name, params, body, ()) rfl
        ⟨trivial, trivial, hname, hparams, hbody, trivial⟩
  | getter name body hname hbody =>
      exact .named "Getter" rfl (name, body, ()) rfl ⟨hname, hbody, trivial⟩
  | setter name param body hname hparam hbody =>
      exact .named "Setter" rfl (name, param, body, ()) rfl ⟨hname, hparam, hbody, trivial⟩
  -- expressions
  | array elements ih => exact .named "ArrayExpression" rfl (elements, ()) rfl ⟨ih, trivial⟩
  | arrow isAsync params body hparams hbody =>
      exact .named "ArrowExpression" rfl (isAsync, params, body, ()) rfl
        ⟨trivial, hparams, hbody, trivial⟩
  | assign target value htarget hvalue =>
      exact .named "AssignmentExpression" rfl (target, value, ()) rfl ⟨htarget, hvalue, trivial⟩
  | await operand ih => exact .named "AwaitExpression" rfl (operand, ()) rfl ⟨ih, trivial⟩
  | binary left operator right hleft hright =>
      exact .named "BinaryExpression" rfl (left, operator, right, ()) rfl
        ⟨hleft, trivial, hright, trivial⟩
  | call callee arguments hcallee harguments =>
      exact .named "CallExpression" rfl (callee, arguments, ()) rfl ⟨hcallee, harguments, trivial⟩
  | classExpression name heritage elements hname hheritage helements =>
      exact .named "ClassExpression" rfl (name, heritage, elements, ()) rfl
        ⟨hname, hheritage, helements, trivial⟩
  | compoundAssign target operator value htarget hvalue =>
      exact .named "CompoundAssignmentExpression" rfl (target, operator, value, ()) rfl
        ⟨htarget, trivial, hvalue, trivial⟩
  | computedMember object key hobject hkey =>
      exact .named "ComputedMemberExpression" rfl (object, key, ()) rfl ⟨hobject, hkey, trivial⟩
  | conditional test consequent alternate htest hconsequent halternate =>
      exact .named "ConditionalExpression" rfl (test, consequent, alternate, ()) rfl
        ⟨htest, hconsequent, halternate, trivial⟩
  | functionExpression isAsync isGenerator name params body hname hparams hbody =>
      exact .named "FunctionExpression" rfl (isAsync, isGenerator, name, params, body, ()) rfl
        ⟨trivial, trivial, hname, hparams, hbody, trivial⟩
  | identifier name ih => exact ih.embedRecord .identifier rfl rfl
  | boolean value => exact .named "LiteralBooleanExpression" rfl (value, ()) rfl ⟨trivial, trivial⟩
  | infinity => exact .named "LiteralInfinityExpression" rfl () rfl trivial
  | null => exact .named "LiteralNullExpression" rfl () rfl trivial
  | number value => exact .named "LiteralNumericExpression" rfl (value, ()) rfl ⟨trivial, trivial⟩
  | regExp pattern flags =>
      exact .named "LiteralRegExpExpression" rfl (pattern, flags, ()) rfl
        ⟨trivial, trivial, trivial⟩
  | string value => exact .named "LiteralStringExpression" rfl (value, ()) rfl ⟨trivial, trivial⟩
  | new callee arguments hcallee harguments =>
      exact .named "NewExpression" rfl (callee, arguments, ()) rfl ⟨hcallee, harguments, trivial⟩
  | newTarget => exact .named "NewTargetExpression" rfl () rfl trivial
  | object properties ih => exact .named "ObjectExpression" rfl (properties, ()) rfl ⟨ih, trivial⟩
  | staticMember object property ih =>
      exact .named "StaticMemberExpression" rfl (object, property, ()) rfl ⟨ih, trivial, trivial⟩
  | template tag parts htag hparts =>
      exact .named "TemplateExpression" rfl (tag, parts, ()) rfl ⟨htag, hparts, trivial⟩
  | thisValue => exact .named "ThisExpression" rfl () rfl trivial
  | unary operator operand ih =>
      exact .named "UnaryExpression" rfl (operator, operand, ()) rfl ⟨trivial, ih, trivial⟩
  | update leading operator operand ih =>
      exact .named "UpdateExpression" rfl (leading, operator, operand, ()) rfl
        ⟨trivial, trivial, ih, trivial⟩
  | yield value ih => exact .named "YieldExpression" rfl (value, ()) rfl ⟨ih, trivial⟩
  | yieldFrom source ih =>
      exact .named "YieldGeneratorExpression" rfl (source, ()) rfl ⟨ih, trivial⟩
  -- parts of expressions
  | superObject => exact .named "Super" rfl () rfl trivial
  | subject expression ih => exact ih.embedUnion .subject rfl rfl rfl
  | spread expression ih => exact .named "SpreadElement" rfl (expression, ()) rfl ⟨ih, trivial⟩
  | argument expression ih => exact ih.embedUnion .argument rfl rfl rfl
  | chunk raw => exact .named "TemplateElement" rfl (raw, ()) rfl ⟨trivial, trivial⟩
  | substitution expression ih => exact ih.embedUnion .substitution rfl rfl rfl
  | dataProperty name value hname hvalue =>
      exact .named "DataProperty" rfl (name, value, ()) rfl ⟨hname, hvalue, trivial⟩
  | shorthand name ih => exact .named "ShorthandProperty" rfl (name, ()) rfl ⟨ih, trivial⟩
  | methodProperty method ih => 
      exact ih.embed rfl .methodProperty fun _ h => .tail _ (.tail _ (List.mem_map_of_mem h))
  | staticName value => exact .named "StaticPropertyName" rfl (value, ()) rfl ⟨trivial, trivial⟩
  | computedName expression ih =>
      exact .named "ComputedPropertyName" rfl (expression, ()) rfl ⟨ih, trivial⟩
  -- binding patterns
  | bindingName name ih => exact ih.embedRecord .bindingName rfl rfl
  | arrayBinding elements rest helements hrest =>
      exact .named "ArrayBinding" rfl (elements, rest, ()) rfl ⟨helements, hrest, trivial⟩
  | objectBinding properties ih =>
      exact .named "ObjectBinding" rfl (properties, ()) rfl ⟨ih, trivial⟩
  | bindingWithDefault binding init hbinding hinit =>
      exact .named "BindingWithDefault" rfl (binding, init, ()) rfl ⟨hbinding, hinit, trivial⟩
  | parameter binding ih => exact ih.embedUnion .parameter rfl rfl rfl
  | bindingShorthand name init hname hinit =>
      exact .named "BindingPropertyIdentifier" rfl (name, init, ()) rfl ⟨hname, hinit, trivial⟩
  | bindingProperty name binding hname hbinding =>
      exact .named "BindingPropertyProperty" rfl (name, binding, ()) rfl ⟨hname, hbinding, trivial⟩
  -- assignment targets
  | targetName name ih => exact ih.embedRecord .targetName rfl rfl
  | staticMemberTarget object property ih =>
      exact .named "StaticMemberAssignmentTarget" rfl (object, property, ()) rfl
        ⟨ih, trivial, trivial⟩
  | computedMemberTarget object key hobject hkey =>
      exact .named "ComputedMemberAssignmentTarget" rfl (object, key, ()) rfl
        ⟨hobject, hkey, trivial⟩
  | arrayTarget elements rest helements hrest =>
      exact .named "ArrayAssignmentTarget" rfl (elements, rest, ()) rfl ⟨helements, hrest, trivial⟩
  | objectTarget properties ih =>
      exact .named "ObjectAssignmentTarget" rfl (properties, ()) rfl ⟨ih, trivial⟩
  | simpleTarget target ih => exact ih.embedUnion .simpleTarget rfl rfl rfl
  | targetWithDefault target init htarget hinit =>
      exact .named "AssignmentTargetWithDefault" rfl (target, init, ()) rfl
        ⟨htarget, hinit, trivial⟩
  | targetElement target ih => exact ih.embedUnion .targetElement rfl rfl rfl
  | targetShorthand name init hname hinit =>
      exact .named "AssignmentTargetPropertyIdentifier" rfl (name, init, ()) rfl
        ⟨hname, hinit, trivial⟩
  | targetProperty name target hname htarget =>
      exact .named "AssignmentTargetPropertyProperty" rfl (name, target, ()) rfl
        ⟨hname, htarget, trivial⟩

/-! ## Sequences -/

theorem exists_items (node : Node (.list c)) : ∃ items, node.toJson = .array items := by
  match node with
  | nil => exact ⟨[], rfl⟩
  | cons head tail =>
      obtain ⟨items, htail⟩ := exists_items tail
      refine ⟨head.toJson :: items, ?_⟩
      show Json.prepend head.toJson tail.toJson = _
      rw [htail, Json.prepend]

theorem toJson_cons (head : Node c) {tail : Node (.list c)} {items : List Json}
    (h : tail.toJson = .array items) : (cons head tail).toJson = .array (head.toJson :: items) := by
  show Json.prepend head.toJson tail.toJson = _
  rw [h, Json.prepend]

end Node

end EcmaScribe
