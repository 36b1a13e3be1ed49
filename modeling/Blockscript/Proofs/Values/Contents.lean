import Blockscript.Value
import Mathlib.Data.List.Forall2
import Mathlib.Data.List.Perm.Subperm
import Mathlib.Logic.Relation

/-!
# The contents of values

A value that is a list is only the handle of one. Its contents are a tree, in which every
handle has been read through. A value has contents, and only one tree of them, as soon as
none of its lists contains itself: along one path no list occurs twice, so no path is longer
than there are lists in the store. This is as deep as equality follows handles, and so equality
compares whole contents, without regard to the sign of zero.
-/

namespace Blockscript

/-- What a value is when the handles of lists are read through. -/
inductive Contents where
  | nil
  | boolean (truth : Bool)
  | integer (number : Int)
  | decimal (number : Decimal)
  | character (text : String)
  | string (text : String)
  | list (elements : List Contents)

/-- The number with a zero that has no sign. -/
def Decimal.withPlainZero (number : Decimal) : Decimal :=
  { number with negative := number.negative && !number.isZero }

/-- The contents with zeros that have no sign. Nothing else is lost. -/
def Contents.withPlainZeros : Contents → Contents
  | decimal number => decimal number.withPlainZero
  | list elements => list (elements.map withPlainZeros)
  | contents => contents

/-- Whether lists stand inside one another at most so deep. -/
def Contents.Within : Nat → Contents → Prop
  | 0, list _ => False
  | depth + 1, list elements => ∀ element ∈ elements, element.Within depth
  | _, _ => True

namespace Store

/-- The value has the contents, in the state that the lists are in. -/
inductive Shows (store : Store) : Value → Contents → Prop where
  | nil : Shows store .nil .nil
  | boolean {truth : Bool} : Shows store (.boolean truth) (.boolean truth)
  | integer {number : Int} : Shows store (.integer number) (.integer number)
  | decimal {number : Decimal} : Shows store (.decimal number) (.decimal number)
  | character {text : String} : Shows store (.character text) (.character text)
  | string {text : String} : Shows store (.string text) (.string text)
  | list {handle : Nat} {elements : List Contents} : handle < store.lists.size →
      List.Forall₂ (Shows store) (store.elements handle) elements →
      Shows store (.list handle) (.list elements)

/-- The one list has the other one among its elements. -/
def Holds (store : Store) (outer inner : Nat) : Prop :=
  .list inner ∈ store.elements outer

/-- The one list has the other one inside of it, at whatever depth. -/
def Contains (store : Store) : Nat → Nat → Prop :=
  Relation.TransGen store.Holds

end Store

/-- The lists that belong to the value exist, and none of them contains itself. -/
def Value.Loopless (store : Store) (value : Value) : Prop :=
  ∀ first handle, value = .list first → Relation.ReflTransGen store.Holds first handle →
    handle < store.lists.size ∧ ¬ store.Contains handle handle

variable {store : Store} {left right value : Value}

/-! ## Every value without a loop has contents -/

/-- When each of some values has contents that are as asked, there is a list of these. -/
theorem exists_contents {asked : Contents → Prop} {values : List Value}
    (each : ∀ value ∈ values, ∃ contents, store.Shows value contents ∧ asked contents) :
    ∃ elements, List.Forall₂ store.Shows values elements ∧ ∀ element ∈ elements, asked element := by
  induction values with
  | nil => exact ⟨[], .nil, by simp⟩
  | cons first rest inductionHypothesis =>
    obtain ⟨contents, shows, fits⟩ := each first (List.mem_cons_self ..)
    obtain ⟨elements, all, fit⟩ :=
      inductionHypothesis fun value member => each value (List.mem_cons_of_mem _ member)
    exact ⟨contents :: elements, .cons shows all, List.forall_mem_cons.mpr ⟨fits, fit⟩⟩

/-- Different lists of the store are no more than there are. -/
theorem Store.path_length_le {path : List Nat} (different : path.Nodup)
    (present : ∀ handle ∈ path, handle < store.lists.size) : path.length ≤ store.lists.size := by
  have inside : path ⊆ List.range store.lists.size :=
    fun handle member => List.mem_range.mpr (present handle member)
  simpa using (different.subperm inside).length_le

/-- An element of a list without loops has none. -/
theorem Value.Loopless.element {handle : Nat} (loopless : (Value.list handle).Loopless store)
    (member : value ∈ store.elements handle) : value.Loopless store := by
  rintro inner other rfl reached
  exact loopless handle other rfl (.head member reached)

/-- A value that is no list is its own contents. -/
theorem shows_or_list (store : Store) (value : Value) :
    (∃ contents, store.Shows value contents ∧ ∀ depth, contents.Within depth) ∨
      ∃ handle, value = .list handle := by
  have shallow {contents : Contents} (shows : store.Shows value contents)
      (plain : ∀ elements, contents ≠ .list elements) :
      ∃ contents, store.Shows value contents ∧ ∀ depth, contents.Within depth := by
    refine ⟨contents, shows, fun depth => ?_⟩
    unfold Contents.Within
    split
    · exact plain _ rfl
    · exact absurd rfl (plain _)
    · trivial
  cases value with
  | list handle => exact .inr ⟨handle, rfl⟩
  | nil => exact .inl (shallow .nil (by simp))
  | boolean truth => exact .inl (shallow .boolean (by simp))
  | integer number => exact .inl (shallow .integer (by simp))
  | decimal number => exact .inl (shallow .decimal (by simp))
  | character text => exact .inl (shallow .character (by simp))
  | string text => exact .inl (shallow .string (by simp))

/-- Below a path of lists that contain one another, a value has contents that are no deeper
than the path leaves lists to go through. -/
theorem exists_shows_below (depth : Nat) {value : Value} (path : List Nat)
    (different : path.Nodup)
    (present : ∀ handle ∈ path, handle < store.lists.size)
    (length : path.length + depth = store.lists.size) (loopless : value.Loopless store)
    (above : ∀ outer ∈ path, ∀ handle, value = .list handle → store.Contains outer handle) :
    ∃ contents, store.Shows value contents ∧ contents.Within depth := by
  rcases shows_or_list store value with ⟨contents, shows, within⟩ | ⟨handle, rfl⟩
  · exact ⟨contents, shows, within depth⟩
  · -- The list is none of the path, for it does not contain itself.
    obtain ⟨inside, single⟩ := loopless handle handle rfl .refl
    have fresh : handle ∉ path := fun member => single (above handle member handle rfl)
    have longer : (handle :: path).Nodup := List.nodup_cons.mpr ⟨fresh, different⟩
    have still : ∀ other ∈ handle :: path, other < store.lists.size :=
      List.forall_mem_cons.mpr ⟨inside, present⟩
    cases depth with
    | zero =>
      have fits := Store.path_length_le longer still
      rw [List.length_cons] at fits
      omega
    | succ depth =>
      have below (outer : Nat) (among : outer ∈ handle :: path) (inner : Nat)
          (last : store.Holds handle inner) : store.Contains outer inner := by
        rcases List.mem_cons.mp among with rfl | further
        · exact .single last
        · exact .tail (above outer further handle rfl) last
      obtain ⟨elements, shown, within⟩ := exists_contents fun element member =>
        exists_shows_below depth (handle :: path) longer still (by rw [List.length_cons]; omega)
          (loopless.element member) (by
            rintro outer among inner rfl
            exact below outer among inner member)
      exact ⟨.list elements, .list inside shown, within⟩
termination_by depth

/-- A value without a loop has contents, and they are not deeper than handles are followed. -/
theorem Value.Loopless.exists_shows (loopless : value.Loopless store) :
    ∃ contents, store.Shows value contents ∧ contents.Within store.depth :=
  exists_shows_below _ [] .nil (by simp) (by simp [Store.depth]) loopless (by simp)

/-! ## A value has no other contents -/

mutual

/-- A value shows one content. -/
theorem Store.Shows.unique : ∀ {value : Value} (contents : Contents) {other : Contents},
    store.Shows value contents → store.Shows value other → contents = other
  | _, _, _, .nil, .nil => rfl
  | _, _, _, .boolean, .boolean => rfl
  | _, _, _, .integer, .integer => rfl
  | _, _, _, .decimal, .decimal => rfl
  | _, _, _, .character, .character => rfl
  | _, _, _, .string, .string => rfl
  | _, .list elements, _, .list _ shown, .list _ again =>
    congrArg Contents.list (all_unique elements shown again)

/-- Values show one list of contents. -/
theorem Store.all_unique : ∀ {values : List Value} (elements : List Contents)
    {others : List Contents}, List.Forall₂ store.Shows values elements →
    List.Forall₂ store.Shows values others → elements = others
  | _, [], _, .nil, .nil => rfl
  | _, first :: rest, _, .cons one all, .cons other others =>
    congrArg₂ List.cons (Store.Shows.unique first one other) (all_unique rest all others)

end

/-- A value shows what it shows, and nothing else. -/
theorem Store.Shows.iff_eq {shown contents : Contents} (shows : store.Shows value shown) :
    store.Shows value contents ↔ contents = shown :=
  ⟨fun again => again.unique contents shows, fun same => same ▸ shows⟩

/-! ## What has contents has no loop -/

/-- Each element of a list has contents, which are among those of the list. -/
theorem Store.all_member {values : List Value} {elements : List Contents}
    (all : List.Forall₂ store.Shows values elements) (member : value ∈ values) :
    ∃ contents ∈ elements, store.Shows value contents := by
  induction all with
  | nil => cases member
  | cons shows _ inductionHypothesis =>
    rcases List.mem_cons.mp member with rfl | further
    · exact ⟨_, List.mem_cons_self .., shows⟩
    · obtain ⟨contents, among, shows⟩ := inductionHypothesis further
      exact ⟨contents, List.mem_cons_of_mem _ among, shows⟩

/-- A list among the elements of another one has the smaller contents. -/
theorem Store.Shows.smaller {outer inner : Nat} {contents : Contents}
    (shows : store.Shows (.list outer) contents) (holds : store.Holds outer inner) :
    ∃ part, store.Shows (.list inner) part ∧ sizeOf part < sizeOf contents := by
  cases shows with
  | @list _ elements _ all =>
    obtain ⟨part, member, shows⟩ := Store.all_member all holds
    have lesser := List.sizeOf_lt_of_mem member
    exact ⟨part, shows, by rw [Contents.list.sizeOf_spec]; omega⟩

/-- The lists inside of a list have the smaller contents. -/
theorem Store.Shows.smaller_inside {outer inner : Nat} {contents : Contents}
    (shows : store.Shows (.list outer) contents) (inside : store.Contains outer inner) :
    ∃ part, store.Shows (.list inner) part ∧ sizeOf part < sizeOf contents := by
  induction inside with
  | single holds => exact shows.smaller holds
  | tail _ holds inductionHypothesis =>
    obtain ⟨part, showsPart, lesser⟩ := inductionHypothesis
    obtain ⟨last, showsLast, least⟩ := showsPart.smaller holds
    exact ⟨last, showsLast, Nat.lt_trans least lesser⟩

/-- A list that shows its content has been made. -/
theorem Store.Shows.lt_size {handle : Nat} {contents : Contents}
    (shows : store.Shows (.list handle) contents) : handle < store.lists.size := by
  cases shows with
  | list inside _ => exact inside

/-- A list inside of itself would have contents that are smaller than themselves. -/
theorem Store.Shows.not_contains {handle : Nat} {contents : Contents}
    (shows : store.Shows (.list handle) contents) : ¬ store.Contains handle handle := by
  intro inside
  obtain ⟨part, again, lesser⟩ := shows.smaller_inside inside
  rw [again.unique part shows] at lesser
  exact Nat.lt_irrefl _ lesser

/-- A value has contents exactly when it has no loop. -/
theorem loopless_iff_shows :
    value.Loopless store ↔ ∃ contents, store.Shows value contents := by
  constructor
  · intro loopless
    obtain ⟨contents, shows, -⟩ := loopless.exists_shows
    exact ⟨contents, shows⟩
  · rintro ⟨contents, shows⟩ first handle rfl reached
    rcases Relation.reflTransGen_iff_eq_or_transGen.mp reached with rfl | inside
    · exact ⟨shows.lt_size, shows.not_contains⟩
    · obtain ⟨part, showsPart, -⟩ := shows.smaller_inside inside
      exact ⟨showsPart.lt_size, showsPart.not_contains⟩

end Blockscript
