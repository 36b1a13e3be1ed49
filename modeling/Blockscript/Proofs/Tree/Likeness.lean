import Blockscript.Proofs.Tree.Document
import Blockscript.Proofs.Typing.Naming

/-!
# Documents up to the order of members

Two documents are the same value if they differ at most in the order in which the members of
their objects are written. What is read by names only cannot tell two such documents apart:
here are the readers of single members, and what each of them makes of any document that is
the same value as a given one.
-/

namespace Blockscript.Json

variable {document other value : Json} {items others : List Json} {name : String}

/-- Two documents are the same value: arrays item by item, and objects by what stands under
each name. -/
inductive Alike : Json → Json → Prop where
  | null : Alike null null
  | boolean {truth : Bool} : Alike (boolean truth) (boolean truth)
  | integer {number : Int} : Alike (integer number) (integer number)
  | string {text : String} : Alike (string text) (string text)
  | array {items others : List Json} :
      List.Forall₂ Alike items others → Alike (array items) (array others)
  | object {members others : List (String × Json)} :
      (∀ name, Option.Rel Alike (members.lookup name) (others.lookup name)) →
      Alike (object members) (object others)

/-- What stands under a name is smaller than the whole. -/
theorem sizeOf_member? (found : document.member? name = some value) :
    sizeOf value < sizeOf document := by
  cases document with
  | object members =>
    have member : (name, value) ∈ members := by
      obtain ⟨front, behind, rfl, _⟩ := List.lookup_eq_some_iff.mp found
      simp
    have smaller := List.sizeOf_lt_of_mem member
    simp only [Prod.mk.sizeOf_spec, object.sizeOf_spec] at smaller ⊢
    omega
  | _ => cases found

/-- Every document is the same value as itself. -/
theorem Alike.refl (document : Json) : document.Alike document := by
  match document with
  | .null => exact .null
  | .boolean _ => exact .boolean
  | .integer _ => exact .integer
  | .string _ => exact .string
  | .array items =>
    refine .array (List.forall₂_same.mpr fun item member => ?_)
    exact Alike.refl item
  | .object members =>
    refine .object fun name => ?_
    cases found : members.lookup name with
    | none => exact .none
    | some value => exact .some (Alike.refl value)
termination_by sizeOf document
decreasing_by
  · have smaller := List.sizeOf_lt_of_mem member
    simp only [array.sizeOf_spec]
    omega
  · exact sizeOf_member? (show (Json.object members).member? name = some value from found)

/-- The order of members with distinct names does not matter to what is found under a name. -/
theorem lookup_perm {members others : List (String × Json)} (name : String)
    (reordered : members.Perm others) (distinct : (members.map Prod.fst).Nodup) :
    members.lookup name = others.lookup name := by
  induction reordered with
  | nil => rfl
  | cons member _ inductionHypothesis =>
    rw [List.map_cons, List.nodup_cons] at distinct
    rw [List.lookup_cons, List.lookup_cons, inductionHypothesis distinct.2]
  | swap first second rest =>
    have different : second.1 ≠ first.1 := by
      intro same
      simp [same] at distinct
    rw [List.lookup_cons, List.lookup_cons, List.lookup_cons, List.lookup_cons]
    cases atFirst : name == first.1 <;> cases atSecond : name == second.1
    all_goals simp_all
  | trans earlier _ before after =>
    exact (before distinct).trans (after ((earlier.map Prod.fst).nodup_iff.mp distinct))

/-- An object is the same value with its members in another order. -/
theorem Alike.of_perm {members others : List (String × Json)} (reordered : members.Perm others)
    (distinct : (members.map Prod.fst).Nodup) :
    (Json.object members).Alike (Json.object others) := by
  refine .object fun name => ?_
  rw [← lookup_perm name reordered distinct]
  cases members.lookup name with
  | none => exact .none
  | some value => exact .some (.refl value)

/-- Documents that are alike have alike members. -/
theorem Alike.member?_rel (alike : document.Alike other) (name : String) :
    Option.Rel Alike (document.member? name) (other.member? name) := by
  cases alike with
  | object related => exact related name
  | _ => exact .none

/-- Documents that are the same value have the same values under each name. -/
theorem Alike.member? (alike : document.Alike other) (name : String)
    (found : document.member? name = some value) :
    ∃ same, other.member? name = some same ∧ value.Alike same := by
  have both := alike.member?_rel name
  rw [found] at both
  cases there : other.member? name with
  | none =>
    rw [there] at both
    cases both
  | some same =>
    rw [there] at both
    cases both with
    | some related => exact ⟨same, rfl, related⟩

/-- Documents that are the same value have the same members missing. -/
theorem Alike.member?_none (alike : document.Alike other) (name : String)
    (missing : document.member? name = none) : other.member? name = none := by
  have both := alike.member?_rel name
  rw [missing] at both
  cases there : other.member? name with
  | none => rfl
  | some same =>
    rw [there] at both
    cases both

/-! ## Reading members -/

/-- What a reader makes of the member of a name. -/
def field? {α : Type} (document : Json) (name : String) (reader : Json → Option α) : Option α :=
  (document.member? name).bind reader

/-- What stands under a name, as a smaller document. -/
def part? (document : Json) (name : String) :
    Option { part : Json // sizeOf part < sizeOf document } :=
  match found : document.member? name with
  | some part => some ⟨part, sizeOf_member? found⟩
  | none => none

/-- An item of a member is smaller than the document, so that reading ends. -/
theorem sizeOf_item {item : Json} (found : document.member? name = some (array items))
    (member : item ∈ items) : sizeOf item < sizeOf document := by
  have inside := sizeOf_member? found
  have smaller := List.sizeOf_lt_of_mem member
  simp only [array.sizeOf_spec] at inside
  omega

/-- The items of the array under a name, as smaller documents. -/
def parts? (document : Json) (name : String) :
    Option (List { part : Json // sizeOf part < sizeOf document }) :=
  match found : document.member? name with
  | some (array items) => some (items.attach.map fun item => ⟨item.1, sizeOf_item found item.2⟩)
  | _ => none

/-- Whether a document is null. -/
def isNull : Json → Bool
  | null => true
  | _ => false

/-- Reads a text. -/
def asString? : Json → Option String
  | string text => some text
  | _ => none

/-- Reads a text that may be missing. -/
def asStringOrNull? : Json → Option (Option String)
  | string text => some (some text)
  | null => some none
  | _ => none

/-- Reads a type that may be missing, from its text. -/
def asTypeOrNull? : Json → Option (Option Ty)
  | string text => (Ty.ofText text).toOption.map some
  | null => some none
  | _ => none

/-- Reads a truth value. -/
def asBoolean? : Json → Option Bool
  | boolean truth => some truth
  | _ => none

/-- Reads an array item by item. -/
def asArray? {α : Type} (reader : Json → Option α) : Json → Option (List α)
  | array items => items.mapM reader
  | _ => none

/-! ## What readers yield -/

section

variable {α β : Type} {reader : Json → Option α} {result : α} {results : List α}

/-- A reader gets a result from a document, however the members in it are ordered. -/
def Yields (reader : Json → Option α) (document : Json) (result : α) : Prop :=
  ∀ other, document.Alike other → reader other = some result

/-- A member is read as what its reader yields. -/
theorem Alike.field? (alike : document.Alike other) (name : String)
    (found : document.member? name = some value) (yields : Yields reader value result) :
    other.field? name reader = some result := by
  obtain ⟨same, there, related⟩ := alike.member? name found
  rw [Json.field?, there]
  exact yields same related

/-- A part of a document is a part of one that is the same value. -/
theorem Alike.part? (alike : document.Alike other) (name : String)
    (found : document.member? name = some value) :
    ∃ part, other.part? name = some part ∧ value.Alike part.1 := by
  obtain ⟨same, there, related⟩ := alike.member? name found
  refine ⟨⟨same, sizeOf_member? there⟩, ?_, related⟩
  unfold Json.part?
  split
  · next again => cases there.symm.trans again; rfl
  · next none => cases there.symm.trans none

/-- The items of an array are read one after the other. -/
theorem mapM_yields (yields : List.Forall₂ (Yields reader) items results)
    (alike : List.Forall₂ Alike items others) : others.mapM reader = some results := by
  induction yields generalizing others with
  | nil =>
    cases alike
    rfl
  | cons here _ inductionHypothesis =>
    cases alike with
    | cons first rest => simp [List.mapM_cons, here _ first, inductionHypothesis rest]

/-- Parts of a document are read from one that is the same value. -/
theorem Alike.parts? (alike : document.Alike other) (name : String)
    (found : document.member? name = some (.array items))
    (yields : List.Forall₂ (Yields reader) items results) :
    ∃ parts, other.parts? name = some parts ∧ parts.unattach.mapM reader = some results := by
  obtain ⟨same, there, related⟩ := alike.member? name found
  cases related with
  | @array _ others related =>
    refine ⟨others.attach.map fun item => ⟨item.1, sizeOf_item there item.2⟩, ?_, ?_⟩
    · unfold Json.parts?
      split
      · next again => cases there.symm.trans again; rfl
      · next none => exact absurd there (none others)
    · rw [List.unattach, List.map_map, ← mapM_yields yields related]
      exact congrArg (List.mapM reader) (List.attach_map_subtype_val others)

/-- Documents that are the same value are both null or neither is. -/
theorem Alike.isNull (alike : document.Alike other) : other.isNull = document.isNull := by
  cases alike <;> rfl

/-- A text is read as itself. -/
theorem yields_string {text : String} : Yields asString? (string text) text := by
  rintro _ ⟨⟩
  rfl

/-- A truth value is read as itself. -/
theorem yields_boolean {truth : Bool} : Yields asBoolean? (boolean truth) truth := by
  rintro _ ⟨⟩
  rfl

/-- A text that may be missing is read as itself. -/
theorem yields_stringOrNull {text : Option String} :
    Yields asStringOrNull? (ofText? text) text := by
  intro other alike
  cases text <;> cases alike <;> rfl

/-- A type that may be missing is read as itself. -/
theorem yields_typeOrNull {type : Option Ty} : Yields asTypeOrNull? (ofType? type) type := by
  intro other alike
  cases type with
  | none =>
    cases alike
    rfl
  | some type =>
    cases alike
    simp [asTypeOrNull?, Ty.ofText_text, Except.toOption]

/-- An array is read item by item. -/
theorem yields_array (yields : List.Forall₂ (Yields reader) items results) :
    Yields (asArray? reader) (array items) results := by
  rintro _ (_ | _ | _ | _ | related)
  exact mapM_yields yields related

/-- A list is read from an array if each thing in it is read from the way it is written. -/
theorem yields_map {writer : β → Json} {meaning : β → α}
    (yields : ∀ thing, Yields reader (writer thing) (meaning thing)) (things : List β) :
    Yields (asArray? reader) (array (things.map writer)) (things.map meaning) := by
  refine yields_array (List.forall₂_map_left_iff.mpr (List.forall₂_map_right_iff.mpr ?_))
  exact List.forall₂_same.mpr fun thing _ => yields thing

end

end Blockscript.Json
