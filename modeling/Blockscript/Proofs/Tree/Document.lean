import Blockscript.Proofs.Typing.Occurrences

/-!
# Documents of checked trees

What stands in a document, and what is asked of it there: every node of a kind that carries
a type has the text of one. The document of a checked tree is of this sort as a whole, from
the globals down to the offsets and arguments in its expressions. Only a case outside of a
switch would be an exception, since the expressions in its label are not checked. And every
expression of a program is shown in the document.
-/

namespace Blockscript

namespace Json

/-- The first document is the second one, or stands in it at any depth. -/
inductive Within : Json → Json → Prop where
  | whole {document : Json} : Within document document
  | item {inner item : Json} {items : List Json} :
      item ∈ items → Within inner item → Within inner (.array items)
  | member {inner value : Json} {name : String} {members : List (String × Json)} :
      (name, value) ∈ members → Within inner value → Within inner (.object members)

/-- What stands within a part stands within the whole. -/
theorem Within.trans {inner middle outer : Json} (first : inner.Within middle)
    (second : middle.Within outer) : inner.Within outer := by
  induction second with
  | whole => exact first
  | item among _ inductionHypothesis => exact .item among inductionHypothesis
  | member among _ inductionHypothesis => exact .member among inductionHypothesis

/-- Something holds of a document and of everything that stands in it. -/
def Every (holds : Json → Prop) (document : Json) : Prop :=
  ∀ inner, inner.Within document → holds inner

variable {holds : Json → Prop}

/-- Null has no parts. -/
@[simp] theorem every_null : Every holds null ↔ holds null :=
  ⟨fun every => every _ .whole, by rintro here _ ⟨⟩; exact here⟩

/-- A truth value has no parts. -/
@[simp] theorem every_boolean {truth : Bool} :
    Every holds (boolean truth) ↔ holds (boolean truth) :=
  ⟨fun every => every _ .whole, by rintro here _ ⟨⟩; exact here⟩

/-- An integer has no parts. -/
@[simp] theorem every_integer {number : Int} :
    Every holds (integer number) ↔ holds (integer number) :=
  ⟨fun every => every _ .whole, by rintro here _ ⟨⟩; exact here⟩

/-- A text has no parts. -/
@[simp] theorem every_string {text : String} : Every holds (string text) ↔ holds (string text) :=
  ⟨fun every => every _ .whole, by rintro here _ ⟨⟩; exact here⟩

/-- The parts of an array are those of its items. -/
@[simp] theorem every_array {items : List Json} :
    Every holds (array items) ↔ holds (array items) ∧ ∀ item ∈ items, item.Every holds := by
  constructor
  · intro every
    exact ⟨every _ .whole, fun item member inner within => every inner (.item member within)⟩
  · rintro ⟨here, inside⟩ inner within
    cases within with
    | whole => exact here
    | item member deeper => exact inside _ member inner deeper

/-- The parts of an object are those of its members. -/
@[simp] theorem every_object {members : List (String × Json)} :
    Every holds (object members) ↔
      holds (object members) ∧ ∀ member ∈ members, member.2.Every holds := by
  constructor
  · intro every
    exact ⟨every _ .whole, fun member among inner within => every inner (.member among within)⟩
  · rintro ⟨here, inside⟩ inner within
    cases within with
    | whole => exact here
    | member among deeper => exact inside _ among inner deeper

/-- What stands in a member of a node stands in the node. -/
theorem Within.node {inner value : Json} {kind name : String} {members : List (String × Json)}
    (among : (name, value) ∈ members) (within : inner.Within value) :
    inner.Within (node kind members) :=
  .member (List.mem_cons_of_mem _ among) within

/-- The member of a name in a document. -/
def member? (name : String) : Json → Option Json
  | object members => members.lookup name
  | _ => none

/-- The member in which a node of a kind carries a type. Statements other than declarations
carry none, and neither do cases and whole programs. -/
def typeMember? (kind : String) : Option String :=
  if kind = "Function" then some "resolved_return_type"
  else if kind ∈ ["Literal", "Group", "Binary", "Access", "Call", "ListLiteral", "Global",
      "Declaration"] then some "resolved_type"
  else none

/-- If the document is a node of a kind that carries a type, it has the text of one. -/
def Resolved (document : Json) : Prop :=
  ∀ kind member, document.member? "type" = some (string kind) → typeMember? kind = some member →
    ∃ type : Ty, document.member? member = some (string type.text)

/-- What is no node carries no type. -/
theorem resolved_of_none {document : Json} (none : document.member? "type" = none) :
    document.Resolved := by
  intro kind member named
  rw [none] at named
  cases named

/-- Null is no node. -/
@[simp] theorem resolved_null : Resolved null :=
  resolved_of_none rfl

/-- A truth value is no node. -/
@[simp] theorem resolved_boolean {truth : Bool} : Resolved (boolean truth) :=
  resolved_of_none rfl

/-- An integer is no node. -/
@[simp] theorem resolved_integer {number : Int} : Resolved (integer number) :=
  resolved_of_none rfl

/-- A text is no node. -/
@[simp] theorem resolved_string {text : String} : Resolved (string text) :=
  resolved_of_none rfl

/-- An array is no node. -/
@[simp] theorem resolved_array {items : List Json} : Resolved (array items) :=
  resolved_of_none rfl

/-- A node that carries its type, as everything in it does. -/
theorem every_typed {kind name : String} {members : List (String × Json)} {type : Ty}
    (asked : typeMember? kind = some name)
    (there : (node kind members).member? name = some (string type.text))
    (inside : ∀ member ∈ members, member.2.Every Resolved) :
    (node kind members).Every Resolved := by
  refine every_object.mpr ⟨?_, by simpa using inside⟩
  rintro other member ⟨⟩ same
  obtain rfl := Option.some.inj (asked.symm.trans same)
  exact ⟨type, there⟩

/-- A node of a kind that carries no type. -/
theorem every_untyped {kind : String} {members : List (String × Json)}
    (asked : typeMember? kind = none)
    (inside : ∀ member ∈ members, member.2.Every Resolved) :
    (node kind members).Every Resolved := by
  refine every_object.mpr ⟨?_, by simpa using inside⟩
  rintro other member ⟨⟩ same
  cases asked.symm.trans same

/-- A text that may be missing has no nodes in it. -/
@[simp] theorem every_ofText? {text : Option String} : Every Resolved (ofText? text) := by
  cases text <;> simp [ofText?]

/-- A type that may be missing has no nodes in it. -/
@[simp] theorem every_ofType? {type : Option Ty} : Every Resolved (ofType? type) :=
  every_ofText?

end Json

open Json (Every Resolved)

/-- The document of a literal has no nodes in it that lack their types. -/
@[simp] theorem Literal.toJson_resolved (literal : Literal) : literal.toJson.Every Resolved := by
  cases literal with
  | decimal number => simpa [Literal.toJson] using Json.resolved_of_none rfl
  | character text => simpa [Literal.toJson] using Json.resolved_of_none rfl
  | _ => simp [Literal.toJson]

mutual

/-- Every expression in the document of a checked one has its type. -/
theorem Expr.toJson_resolved : ∀ tree : Expr .checked, tree.toJson.Every Resolved
  | .literal _ _ => Json.every_typed rfl rfl (by simp)
  | .group _ inner => Json.every_typed rfl rfl (by simp [inner.toJson_resolved])
  | .binary _ _ left right =>
    Json.every_typed rfl rfl (by simp [left.toJson_resolved, right.toJson_resolved])
  | .access _ _ _ => Json.every_typed rfl rfl (by simp)
  | .element _ _ _ offset => Json.every_typed rfl rfl (by simp [offset.toJson_resolved])
  | .call _ _ _ arguments =>
    Json.every_typed rfl rfl (by simpa using Expr.allToJson_resolved arguments)
  | .list _ elements =>
    Json.every_typed rfl rfl (by simpa using Expr.allToJson_resolved elements)

/-- Every node in the documents of expressions has its type. -/
theorem Expr.allToJson_resolved : ∀ trees : List (Expr .checked),
    ∀ item ∈ Expr.allToJson trees, item.Every Resolved
  | [] => by simp [Expr.allToJson]
  | first :: rest => by
    simpa [Expr.allToJson] using ⟨first.toJson_resolved, Expr.allToJson_resolved rest⟩

end

/-- Every node in the document of an optional expression has its type. -/
theorem Expr.optionalToJson_resolved (value : Option (Expr .checked)) :
    (Expr.optionalToJson value).Every Resolved := by
  cases value with
  | none => simp [Expr.optionalToJson]
  | some value => exact value.toJson_resolved

mutual

/-- Every node in the document of a checked statement has its type, if no case in it stands
outside of a switch. -/
theorem Stmt.toJson_resolved : ∀ tree : Stmt .checked,
    (∀ inner ∈ tree.nested, inner.isStray = false) → tree.toJson.Every Resolved
  | .expression inner, _ => Json.every_untyped rfl (by simp [inner.toJson_resolved])
  | .declaration _ _ _ value, _ =>
    Json.every_typed rfl rfl (by simp [Expr.optionalToJson_resolved value])
  | .assignment receiver value, _ =>
    Json.every_untyped rfl (by simp [receiver.toJson_resolved, value.toJson_resolved])
  | .conditional condition thenBlock elseBlock, placed => by
    simp only [Stmt.nested, List.forall_mem_cons, List.forall_mem_append] at placed
    have thenResolved := Stmt.allToJson_resolved thenBlock placed.2.1
    have elseResolved := Stmt.allToJson_resolved elseBlock placed.2.2
    exact Json.every_untyped rfl
      (by simpa [condition.toJson_resolved] using ⟨thenResolved, elseResolved⟩)
  | .switch subject cases, placed => by
    simp only [Stmt.nested, List.forall_mem_cons] at placed
    have casesResolved := Case.allToJson_resolved cases placed.2
    exact Json.every_untyped rfl (by simpa [subject.toJson_resolved] using casesResolved)
  | .loop condition body, placed => by
    simp only [Stmt.nested, List.forall_mem_cons] at placed
    have bodyResolved := Stmt.allToJson_resolved body placed.2
    exact Json.every_untyped rfl (by simpa [condition.toJson_resolved] using bodyResolved)
  | .returning value, _ => Json.every_untyped rfl (by simp [value.toJson_resolved])
  | .stray _ _, placed => by
    have outside := placed _ List.mem_cons_self
    cases outside

/-- Every node in the documents of statements has its type, if no case is astray. -/
theorem Stmt.allToJson_resolved : ∀ trees : List (Stmt .checked),
    (∀ inner ∈ Stmt.nestedOf trees, inner.isStray = false) →
      ∀ item ∈ Stmt.allToJson trees, item.Every Resolved
  | [], _ => by simp [Stmt.allToJson]
  | first :: rest, placed => by
    simp only [Stmt.nestedOf, List.forall_mem_append] at placed
    simpa [Stmt.allToJson] using
      ⟨first.toJson_resolved placed.1, Stmt.allToJson_resolved rest placed.2⟩

/-- Every node in the documents of cases has its type, if no case is astray. -/
theorem Case.allToJson_resolved : ∀ trees : List (Case .checked),
    (∀ inner ∈ Case.nestedOf trees, inner.isStray = false) →
      ∀ item ∈ Case.allToJson trees, item.Every Resolved
  | [], _ => by simp [Case.allToJson]
  | .mk label body :: rest, placed => by
    simp only [Case.nestedOf, List.forall_mem_append] at placed
    have bodyResolved := Stmt.allToJson_resolved body placed.1
    have here : (Case.mk label body).toJson.Every Resolved :=
      Json.every_untyped rfl
        (by simpa [Expr.optionalToJson_resolved label] using bodyResolved)
    simpa [Case.allToJson] using ⟨here, Case.allToJson_resolved rest placed.2⟩

end

/-- Every node in the document of a checked program has its type, if no case in it stands
outside of a switch. -/
theorem Program.toJson_resolved {program : Program .checked}
    (placed : ∀ statement ∈ program.statements, statement.isStray = false) :
    program.toJson.Every Resolved := by
  have globals : ∀ definition ∈ program.globals, definition.toJson.Every Resolved := by
    intro definition _
    exact Json.every_typed rfl rfl (by simp [Expr.optionalToJson_resolved])
  have functions : ∀ definition ∈ program.functions, definition.toJson.Every Resolved := by
    intro definition member
    have body := Stmt.allToJson_resolved definition.body fun inner nested =>
      placed inner (List.mem_flatMap.mpr ⟨definition, member, nested⟩)
    exact Json.every_typed rfl rfl (by simpa using body)
  exact Json.every_untyped rfl (by simpa using ⟨globals, functions⟩)

/-! ## What the document shows -/

section

variable {ν : Notes} [Shown ν]

/-- The document of each expression is among those of all. -/
theorem Expr.mem_allToJson {tree : Expr ν} {trees : List (Expr ν)} (member : tree ∈ trees) :
    tree.toJson ∈ Expr.allToJson trees := by
  induction trees with
  | nil => cases member
  | cons first rest inductionHypothesis =>
    rcases List.mem_cons.mp member with rfl | later
    · exact List.mem_cons_self
    · exact List.mem_cons_of_mem _ (inductionHypothesis later)

/-- What stands in an expression is shown in its document. -/
theorem Expr.Within.toJson {inner tree : Expr ν} (within : inner.Within tree) :
    inner.toJson.Within tree.toJson := by
  induction within with
  | whole => exact .whole
  | @part part tree member _ inductionHypothesis =>
    refine inductionHypothesis.trans ?_
    cases tree with
    | literal => cases member
    | group type inside =>
      obtain rfl := List.mem_singleton.mp member
      exact .node List.mem_cons_self .whole
    | binary type operator left right =>
      simp only [Expr.parts, List.mem_cons, List.not_mem_nil, or_false] at member
      rcases member with rfl | rfl
      · exact .node (List.mem_cons_of_mem _ List.mem_cons_self) .whole
      · exact .node (List.mem_cons_of_mem _ (List.mem_cons_of_mem _ List.mem_cons_self)) .whole
    | access => cases member
    | element type entry name offset =>
      obtain rfl := List.mem_singleton.mp member
      exact .node (List.mem_cons_of_mem _ List.mem_cons_self) .whole
    | call type routine name arguments =>
      exact .node (List.mem_cons_of_mem _ List.mem_cons_self)
        (.item (Expr.mem_allToJson member) .whole)
    | list type elements =>
      exact .node List.mem_cons_self (.item (Expr.mem_allToJson member) .whole)

/-- The document of an optional expression that is there is that expression's. -/
theorem Expr.optional_toJson {root : Expr ν} {value : Option (Expr ν)} (given : root ∈ value) :
    root.toJson.Within (Expr.optionalToJson value) := by
  obtain rfl := Option.mem_def.mp given
  exact .whole

mutual

/-- The expressions of a statement are shown in its document. -/
theorem Stmt.roots_toJson : ∀ tree : Stmt ν, ∀ root ∈ tree.roots, root.toJson.Within tree.toJson
  | .expression _, root, member => by
    obtain rfl := List.mem_singleton.mp member
    exact .node List.mem_cons_self .whole
  | .declaration _ _ _ _, _, member =>
    .node (List.mem_cons_of_mem _ (List.mem_cons_of_mem _ List.mem_cons_self))
      (Expr.optional_toJson (Option.mem_toList.mp member))
  | .assignment _ _, root, member => by
    simp only [Stmt.roots, List.mem_cons, List.not_mem_nil, or_false] at member
    rcases member with rfl | rfl
    · exact .node List.mem_cons_self .whole
    · exact .node (List.mem_cons_of_mem _ List.mem_cons_self) .whole
  | .conditional _ thenBlock elseBlock, root, member => by
    simp only [Stmt.roots, List.mem_cons, List.mem_append] at member
    rcases member with rfl | inThen | inElse
    · exact .node List.mem_cons_self .whole
    · obtain ⟨item, among, within⟩ := Stmt.rootsOf_toJson thenBlock root inThen
      exact .node (List.mem_cons_of_mem _ List.mem_cons_self) (.item among within)
    · obtain ⟨item, among, within⟩ := Stmt.rootsOf_toJson elseBlock root inElse
      exact .node (List.mem_cons_of_mem _ (List.mem_cons_of_mem _ List.mem_cons_self))
        (.item among within)
  | .switch _ cases, root, member => by
    rcases List.mem_cons.mp member with rfl | inside
    · exact .node List.mem_cons_self .whole
    · obtain ⟨item, among, within⟩ := Case.rootsOf_toJson cases root inside
      exact .node (List.mem_cons_of_mem _ List.mem_cons_self) (.item among within)
  | .loop _ body, root, member => by
    rcases List.mem_cons.mp member with rfl | inside
    · exact .node List.mem_cons_self .whole
    · obtain ⟨item, among, within⟩ := Stmt.rootsOf_toJson body root inside
      exact .node (List.mem_cons_of_mem _ List.mem_cons_self) (.item among within)
  | .returning _, root, member => by
    obtain rfl := List.mem_singleton.mp member
    exact .node List.mem_cons_self .whole
  | .stray _ body, root, member => by
    obtain ⟨item, among, within⟩ := Stmt.rootsOf_toJson body root member
    exact .node (List.mem_cons_of_mem _ List.mem_cons_self) (.item among within)

/-- The expressions of statements stand in their documents. -/
theorem Stmt.rootsOf_toJson : ∀ trees : List (Stmt ν), ∀ root ∈ Stmt.rootsOf trees,
    ∃ item ∈ Stmt.allToJson trees, root.toJson.Within item
  | first :: rest, root, member => by
    rcases List.mem_append.mp member with here | later
    · exact ⟨_, List.mem_cons_self, first.roots_toJson root here⟩
    · obtain ⟨item, among, within⟩ := Stmt.rootsOf_toJson rest root later
      exact ⟨item, List.mem_cons_of_mem _ among, within⟩

/-- The expressions of cases stand in their documents. -/
theorem Case.rootsOf_toJson : ∀ trees : List (Case ν), ∀ root ∈ Case.rootsOf trees,
    ∃ item ∈ Case.allToJson trees, root.toJson.Within item
  | .mk label body :: rest, root, member => by
    simp only [Case.rootsOf, List.mem_append] at member
    rcases member with (labelled | inBody) | later
    · exact ⟨_, List.mem_cons_self, .node List.mem_cons_self
        (Expr.optional_toJson (Option.mem_toList.mp labelled))⟩
    · obtain ⟨item, among, within⟩ := Stmt.rootsOf_toJson body root inBody
      exact ⟨_, List.mem_cons_self,
        .node (List.mem_cons_of_mem _ List.mem_cons_self) (.item among within)⟩
    · obtain ⟨item, among, within⟩ := Case.rootsOf_toJson rest root later
      exact ⟨item, List.mem_cons_of_mem _ among, within⟩

end

/-- Every expression of a program is shown in its document. -/
theorem Program.Contains.toJson {program : Program ν} {tree : Expr ν}
    (contains : program.Contains tree) : tree.toJson.Within program.toJson := by
  obtain ⟨root, member, within⟩ := contains
  refine within.toJson.trans ?_
  rcases List.mem_append.mp member with inGlobals | inFunctions
  · obtain ⟨definition, among, given⟩ := List.mem_flatMap.mp inGlobals
    have value : root.toJson.Within (definition.toJson) :=
      .node (List.mem_cons_of_mem _ (List.mem_cons_of_mem _ (List.mem_cons_of_mem _
        List.mem_cons_self))) (Expr.optional_toJson (Option.mem_toList.mp given))
    exact .node List.mem_cons_self (.item (List.mem_map_of_mem among) value)
  · obtain ⟨definition, among, inBody⟩ := List.mem_flatMap.mp inFunctions
    obtain ⟨item, listed, inItem⟩ := Stmt.rootsOf_toJson definition.body root inBody
    have body : root.toJson.Within (definition.toJson) :=
      .node (List.mem_cons_of_mem _ (List.mem_cons_of_mem _ (List.mem_cons_of_mem _
        (List.mem_cons_of_mem _ List.mem_cons_self)))) (.item listed inItem)
    exact .node (List.mem_cons_of_mem _ List.mem_cons_self)
      (.item (List.mem_map_of_mem among) body)

end

end Blockscript
