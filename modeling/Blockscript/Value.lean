import Blockscript.Decimal.Text
import Blockscript.Ty

/-!
# Run-time values

A value is a number, a text, a truth value, nil, or the handle of a list. Lists
live in a store: everything that holds the handle of a list sees the same
elements, so a change made through one name shows through every other.

Text and equality read handles through. A list may come to hold itself, and then
neither has a finite answer; both therefore follow handles only as deep as there
are lists in the store. A list that does not contain itself is never deeper,
because along one path no list occurs twice. A value that holds an integer with
too many digits to be written has no text.
-/

namespace Blockscript

/-- The values of the language. A character is one code point in every program
text; the type leaves room for a hand-built one that is not. -/
inductive Value where
  | nil
  | boolean (truth : Bool)
  | integer (number : Int)
  | decimal (number : Decimal)
  | character (text : String)
  | string (text : String)
  | list (handle : Nat)
deriving DecidableEq, Inhabited

/-- The lists that exist, by handle. Lists are never removed. -/
structure Store where
  lists : Array (List Value) := #[]
deriving Inhabited

namespace Store

/-- The elements of a list. -/
def elements (store : Store) (handle : Nat) : List Value :=
  store.lists[handle]?.getD []

/-- Adds a list and gives its handle. -/
def allocate (store : Store) (elements : List Value) : Nat × Store :=
  (store.lists.size, { store with lists := store.lists.push elements })

/-- Replaces one element of a list. An index past the end changes nothing. -/
def replace (store : Store) (handle index : Nat) (value : Value) : Store :=
  { store with lists := store.lists.modify handle (·.set index value) }

/-- How deep handles are followed. -/
def depth (store : Store) : Nat :=
  store.lists.size

/-- A new list holds what it was made of. -/
theorem elements_allocate (store : Store) (elements : List Value) :
    (store.allocate elements).2.elements (store.allocate elements).1 = elements := by
  simp [allocate, Store.elements]

/-- A new list leaves the elements of those that exist as they are. -/
theorem elements_allocate_of_lt (store : Store) (elements : List Value) (handle : Nat)
    (existing : handle < store.lists.size) :
    (store.allocate elements).2.elements handle = store.elements handle := by
  simp [allocate, Store.elements, Array.getElem?_push, Nat.ne_of_lt existing]

end Store

namespace Value

/-- The kind of a value. All lists are of one kind, whatever they hold. -/
def kind : Value → Ty
  | nil => .nil
  | boolean _ => .boolean
  | integer _ => .integer
  | decimal _ => .decimal
  | character _ => .character
  | string _ => .string
  | list _ => .list .any

/-- The text of a value, following handles to the given depth. There is none when
an integer has too many digits. -/
def textWithin? (store : Store) : Nat → Value → Option String
  | _, nil => some "nil"
  | _, boolean truth => some (if truth then "true" else "false")
  | _, integer number => integerText? number
  | _, decimal number => some number.text
  | _, character text => some text
  | _, string text => some text
  | 0, list _ => some "[...]"
  | depth + 1, list handle =>
    ((store.elements handle).mapM (textWithin? store depth)).map fun texts =>
      "[" ++ ", ".intercalate texts ++ "]"

/-- The text that printing and joining use for a value. -/
def text? (store : Store) (value : Value) : Option String :=
  value.textWithin? store store.depth

/-- Whether two sequences have the same length and related elements. -/
def allRelated (related : Value → Value → Bool) : List Value → List Value → Bool
  | [], [] => true
  | left :: leftRest, right :: rightRest =>
    related left right && allRelated related leftRest rightRest
  | _, _ => false

/-- Equality of values, following handles to the given depth. -/
def equalWithin (store : Store) : Nat → Value → Value → Bool
  | _, nil, nil => true
  | _, boolean left, boolean right => left = right
  | _, integer left, integer right => left = right
  | _, decimal left, decimal right => left.isSame right
  | _, character left, character right => left = right
  | _, string left, string right => left = right
  | 0, list left, list right => left = right
  | depth + 1, list left, list right =>
    allRelated (equalWithin store depth) (store.elements left) (store.elements right)
  | _, _, _ => false

/-- Whether two values are equal: of one kind and with equal contents. Lists are
compared element by element, whichever handles they have. -/
def isEqual (store : Store) (left right : Value) : Bool :=
  equalWithin store store.depth left right

/-- The order of two values of one ordered kind; no other values are ordered.
Texts are ordered by their code points. -/
def isBelow? : Value → Value → Option Bool
  | integer left, integer right => some (left < right)
  | decimal left, decimal right => some (left.isBelow right)
  | character left, character right => some (left < right)
  | string left, string right => some (left < right)
  | _, _ => none

end Value

end Blockscript
