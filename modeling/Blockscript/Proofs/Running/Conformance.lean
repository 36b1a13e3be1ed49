import Blockscript.Value
import Mathlib.Data.List.Infix

/-!
# Values and types

When a value conforms to a type. For a list this asks something of every element, and
of the elements of those, as they are at that moment; and elements change. What does
not change is the element type under which a list was made. A value is typed by that
alone, and while all lists hold what they were made for, being typed is conforming.
-/

namespace Blockscript

/-- A value conforms to a type while the lists are as given. Nil conforms to all. -/
def Value.Conforms (store : Store) : Ty → Value → Prop
  | .any, _ => True
  | .comparable, value => value = .nil ∨ value.kind ∈ Ty.ordered
  | .list element, value => value = .nil ∨ ∃ handle, value = .list handle ∧
      handle < store.lists.size ∧ ∀ inner ∈ store.elements handle, inner.Conforms store element
  | type, value => value = .nil ∨ value.kind = type

namespace Chronicle

/-- A value is of a type, for lists made under the given element types. -/
inductive Typed (makers : List Ty) : Ty → Value → Prop where
  | nil {type : Ty} : Typed makers type .nil
  | any {value : Value} : Typed makers .any value
  | comparable {value : Value} : value.kind ∈ Ty.ordered → Typed makers .comparable value
  | boolean {truth : Bool} : Typed makers .boolean (.boolean truth)
  | integer {number : Int} : Typed makers .integer (.integer number)
  | decimal {number : Decimal} : Typed makers .decimal (.decimal number)
  | character {text : String} : Typed makers .character (.character text)
  | string {text : String} : Typed makers .string (.string text)
  | list {element : Ty} {handle : Nat} :
      makers[handle]? = some element → Typed makers (.list element) (.list handle)

variable {makers more : List Ty} {type source target : Ty} {value : Value} {store : Store}

/-- A list stays made for what it was made for. -/
theorem made_grow {element : Ty} {handle : Nat} (made : makers[handle]? = some element)
    (grown : makers <+: more) : more[handle]? = some element := by
  obtain ⟨later, rfl⟩ := grown
  rw [List.getElem?_append_left (List.getElem?_eq_some_iff.mp made).1]
  exact made

/-- Lists that are made later change no type. -/
theorem Typed.grow (typed : Typed makers type value) (grown : makers <+: more) :
    Typed more type value := by
  cases typed with
  | list made => exact .list (made_grow made grown)
  | comparable ordered => exact .comparable ordered
  | nil => exact .nil
  | any => exact .any
  | boolean => exact .boolean
  | integer => exact .integer
  | decimal => exact .decimal
  | character => exact .character
  | string => exact .string

/-- A value of an assignable type is of the type that it is assigned to. -/
theorem Typed.assign (typed : Typed makers source value)
    (assignable : target.isAssignable source = true) : Typed makers target value := by
  simp only [Ty.isAssignable, Bool.or_eq_true, decide_eq_true_eq, Bool.and_eq_true] at assignable
  rcases assignable with (rfl | rfl) | ⟨rfl, ordered⟩
  · exact typed
  · exact .any
  · cases typed with
    | nil => exact .nil
    | integer => exact .comparable (by simp [Value.kind, Ty.ordered])
    | decimal => exact .comparable (by simp [Value.kind, Ty.ordered])
    | character => exact .comparable (by simp [Value.kind, Ty.ordered])
    | string => exact .comparable (by simp [Value.kind, Ty.ordered])
    | _ => simp [Ty.ordered] at ordered

/-- Every list was made under an element type, and all that it holds is of that. -/
structure Lists (makers : List Ty) (store : Store) : Prop where
  made : makers.length = store.lists.size
  hold : ∀ handle element, makers[handle]? = some element →
    ∀ inner ∈ store.elements handle, Typed makers element inner

/-- Where nothing has been allocated, every list holds elements of its type. -/
theorem lists_empty : Lists [] {} :=
  ⟨rfl, by simp⟩

/-- While all lists hold what they were made for, a value of a type conforms to it. -/
theorem Typed.conforms (lists : Lists makers store) :
    ∀ {type : Ty} {value : Value}, Typed makers type value → value.Conforms store type
  | .list element, _, .list made => by
    refine .inr ⟨_, rfl, ?_, ?_⟩
    · rw [← lists.made]
      exact (List.getElem?_eq_some_iff.mp made).1
    · intro inner member
      exact Typed.conforms lists (lists.hold _ element made inner member)
  | .list _, _, .nil => .inl rfl
  | .any, _, _ => trivial
  | .nil, _, .nil => .inl rfl
  | .comparable, _, .nil => .inl rfl
  | .comparable, _, .comparable ordered => .inr ordered
  | .boolean, _, .nil => .inl rfl
  | .boolean, _, .boolean => .inr rfl
  | .integer, _, .nil => .inl rfl
  | .integer, _, .integer => .inr rfl
  | .decimal, _, .nil => .inl rfl
  | .decimal, _, .decimal => .inr rfl
  | .character, _, .nil => .inl rfl
  | .character, _, .character => .inr rfl
  | .string, _, .nil => .inl rfl
  | .string, _, .string => .inr rfl

/-- What holds of all that the lists have, under their element types, holds of it with a new
list. -/
theorem holds_allocate {holds : Ty → Value → Prop} {element : Ty} {elements : List Value}
    (size : makers.length = store.lists.size)
    (old : ∀ handle element, makers[handle]? = some element →
      ∀ inner ∈ store.elements handle, holds element inner)
    (new : ∀ inner ∈ elements, holds element inner) :
    ∀ handle other, (makers ++ [element])[handle]? = some other →
      ∀ inner ∈ (store.allocate elements).2.elements handle, holds other inner := by
  intro handle other made inner member
  by_cases latest : handle = store.lists.size
  · subst latest
    have same : element = other := by
      simpa [← size] using made
    rw [show store.lists.size = (store.allocate elements).1 from rfl,
      Store.elements_allocate] at member
    exact same ▸ new inner member
  · have bound := (List.getElem?_eq_some_iff.mp made).1
    have existing : handle < store.lists.size := by
      simp only [List.length_append, size, List.length_singleton] at bound
      omega
    rw [Store.elements_allocate_of_lt _ _ _ existing] at member
    rw [List.getElem?_append_left (size ▸ existing)] at made
    exact old handle other made inner member

/-- The elements of a list in which one has been replaced are old ones or the new
one. -/
theorem mem_elements_replace {handle index other : Nat} {inner : Value}
    (member : inner ∈ (store.replace handle index value).elements other) :
    inner ∈ store.elements other ∨ (inner = value ∧ other = handle) := by
  unfold Store.replace Store.elements at member
  rw [Array.getElem?_modify] at member
  split at member
  · next same =>
    subst same
    unfold Store.elements
    cases list : store.lists[handle]? with
    | none => simp [list] at member
    | some elements =>
      simp only [list, Option.map_some, Option.getD_some] at member ⊢
      rcases List.mem_or_eq_of_mem_set member with old | new
      · exact .inl old
      · exact .inr ⟨new, trivial⟩
  · exact .inl member

/-- What holds of all that the lists have holds of it when an element is replaced by one of
which it holds. -/
theorem holds_replace {holds : Ty → Value → Prop} {handle index : Nat} {element : Ty}
    (made : makers[handle]? = some element)
    (old : ∀ handle element, makers[handle]? = some element →
      ∀ inner ∈ store.elements handle, holds element inner)
    (new : holds element value) :
    ∀ other type, makers[other]? = some type →
      ∀ inner ∈ (store.replace handle index value).elements other, holds type inner := by
  intro other type otherMade inner member
  rcases mem_elements_replace member with before | ⟨rfl, rfl⟩
  · exact old other type otherMade inner before
  · obtain rfl := Option.some.inj (made.symm.trans otherMade)
    exact new

/-- A new list holds what it is made for, and the others what they held. -/
theorem Lists.allocate (lists : Lists makers store) {element : Ty} {elements : List Value}
    (typed : ∀ inner ∈ elements, Typed makers element inner) :
    Lists (makers ++ [element]) (store.allocate elements).2 ∧
      Typed (makers ++ [element]) (.list element) (.list (store.allocate elements).1) := by
  have grown : makers <+: makers ++ [element] := List.prefix_append _ _
  refine ⟨⟨?_, ?_⟩, .list ?_⟩
  · simp [Store.allocate, lists.made]
  · have old : ∀ handle other, makers[handle]? = some other →
        ∀ inner ∈ store.elements handle, Typed (makers ++ [element]) other inner :=
      fun handle other made inner member => (lists.hold handle other made inner member).grow grown
    exact holds_allocate lists.made old fun inner member => (typed inner member).grow grown
  · simp [Store.allocate, ← lists.made]

/-- Replacing an element by one of the type that the list was made for. -/
theorem Lists.replace (lists : Lists makers store) {handle index : Nat} {element : Ty}
    (made : makers[handle]? = some element) (typed : Typed makers element value) :
    Lists makers (store.replace handle index value) :=
  ⟨by simp [Store.replace, lists.made], holds_replace made lists.hold typed⟩

end Chronicle

end Blockscript
