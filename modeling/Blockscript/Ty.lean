/-!
# Types of the scripting language

A type is one of eight base types or a list of some element type. Types serve
twice: the checker gives every expression one, and at run time every value has a
kind, which is a type as well.

Each type has exactly one written form, and reading is the inverse of writing:
`ofText` accepts the written forms and nothing else. A name that is refused is
reported by the innermost part that no base type carries, because lists are
unwrapped from the outside before any base name is looked at.
-/

namespace Blockscript

/-- The types of the language. `any` and `comparable` are the two types that
hold values of other types; every other type holds values of its own kind. -/
inductive Ty where
  | any
  | nil
  | comparable
  | boolean
  | integer
  | decimal
  | character
  | string
  | list (element : Ty)
deriving DecidableEq, Inhabited

namespace Ty

/-- The written form of a type. -/
def text : Ty → String
  | any => "Any"
  | nil => "Nil"
  | comparable => "Comparable"
  | boolean => "Boolean"
  | integer => "Integer"
  | decimal => "Decimal"
  | character => "Character"
  | string => "String"
  | list element => "List<" ++ element.text ++ ">"

/-- The types that are no lists. -/
def base : List Ty :=
  [any, nil, comparable, boolean, integer, decimal, character, string]

/-- The base type a name belongs to. -/
def ofBaseName? (name : String) : Option Ty :=
  base.find? fun type => type.text = name

/-- The text between `List<` and a closing `>` that ends the name. The two
brackets differ, so the opening never overlaps the closing one. -/
def listArgument? : List Char → Option (List Char)
  | 'L' :: 'i' :: 's' :: 't' :: '<' :: inner =>
    if inner.getLast? = some '>' then some inner.dropLast else none
  | _ => none

/-- The name inside a list type is shorter than the whole, so that reading it ends. -/
theorem listArgument?_length {name inner : List Char}
    (wrapped : listArgument? name = some inner) : inner.length < name.length := by
  unfold listArgument? at wrapped
  split at wrapped
  · split at wrapped
    · cases wrapped
      simp only [List.length_dropLast, List.length_cons]
      omega
    · contradiction
  · contradiction

/-- Reads a type from the letters of its name. A failure carries the part that
is no base type, after all surrounding list brackets are gone. -/
def ofLetters (name : List Char) : Except String Ty :=
  match _wrapped : listArgument? name with
  | some inner => (ofLetters inner).map list
  | none =>
    match ofBaseName? (String.ofList name) with
    | some type => .ok type
    | none => .error (String.ofList name)
termination_by name.length
decreasing_by exact listArgument?_length _wrapped

/-- Reads a type from its written form. -/
def ofText (name : String) : Except String Ty :=
  ofLetters name.toList

/-- The element type of a list type. -/
def element? : Ty → Option Ty
  | list element => some element
  | _ => none

/-- The kinds that have an order, and that `comparable` admits. -/
def ordered : List Ty :=
  [integer, decimal, character, string]

/-- Whether a value of type `source` may be stored where `target` is expected.
Lists are invariant: a list is assignable only to its own type or to `any`. -/
def isAssignable (target source : Ty) : Bool :=
  target = source || target = any || (target = comparable && ordered.contains source)

end Ty

end Blockscript
