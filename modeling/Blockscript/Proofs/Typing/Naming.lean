import Blockscript.Ty
import Mathlib.Data.List.Basic

/-!
# Names of types

A name is read by taking off the brackets of list types, from the outside. What is left
when no brackets are left is the name of a base type or of no type at all. So every type
has one name, and a name that is refused is refused for the part in its innermost brackets.
-/

namespace Blockscript.Ty

/-- What stands between the brackets of a list type. -/
theorem listArgument?_iff {name inner : List Char} :
    listArgument? name = some inner ↔ name = "List<".toList ++ inner ++ ['>'] := by
  constructor
  · intro wrapped
    unfold listArgument? at wrapped
    split at wrapped
    · next rest =>
      split at wrapped
      · next closed =>
        cases wrapped
        have whole : rest.dropLast ++ ['>'] = rest :=
          List.dropLast_append_getLast? _ closed
        change _ = 'L' :: 'i' :: 's' :: 't' :: '<' :: (rest.dropLast ++ ['>'])
        rw [whole]
      · cases wrapped
    · cases wrapped
  · rintro rfl
    have closed : (inner ++ ['>']).getLast? = some '>' := by
      simp
    change (if (inner ++ ['>']).getLast? = some '>' then some (inner ++ ['>']).dropLast
      else none) = some inner
    rw [if_pos closed, List.dropLast_concat]

/-- A name in the brackets of so many list types. -/
def bracketed : Nat → String → String
  | 0, inner => inner
  | depth + 1, inner => "List<" ++ bracketed depth inner ++ ">"

/-- The type of lists of so many levels. -/
def nested : Nat → Ty → Ty
  | 0, inner => inner
  | depth + 1, inner => list (nested depth inner)

/-- The text of lists of lists has brackets around the text of what is inside. -/
theorem text_nested (depth : Nat) (inner : Ty) :
    (nested depth inner).text = bracketed depth inner.text := by
  induction depth with
  | zero => rfl
  | succ depth inductionHypothesis => rw [nested, text, inductionHypothesis, bracketed]

/-- Every type is a base type under some levels of lists. -/
theorem exists_nested (type : Ty) : ∃ depth, ∃ inner ∈ base, type = nested depth inner := by
  induction type with
  | list element inductionHypothesis =>
    obtain ⟨depth, inner, member, same⟩ := inductionHypothesis
    exact ⟨depth + 1, inner, member, by rw [nested, same]⟩
  | _ => exact ⟨0, _, by decide, rfl⟩

/-- Every name is one without brackets in some brackets. -/
theorem exists_bracketed (name : String) :
    ∃ depth part, name = bracketed depth part ∧ ∀ inner, part ≠ bracketed 1 inner := by
  by_cases wrapped : ∃ inner, name = bracketed 1 inner
  · obtain ⟨inner, same⟩ := wrapped
    have shorter : inner.length < name.length := by
      rw [same]
      simp only [bracketed, String.length_append, show "List<".length = 5 from rfl]
      omega
    obtain ⟨depth, part, inside, plain⟩ := exists_bracketed inner
    exact ⟨depth + 1, part, by rw [same, bracketed, bracketed, bracketed, inside], plain⟩
  · exact ⟨0, name, rfl, fun inner same => wrapped ⟨inner, same⟩⟩
termination_by name.length

/-- No base type is written with brackets. -/
theorem text_plain {type : Ty} (member : type ∈ base) (inner : String) :
    type.text ≠ bracketed 1 inner := by
  intro same
  have outside : ∀ type ∈ base, '<' ∉ type.text.toList := by
    decide
  apply outside type member
  rw [same]
  simp [bracketed]

/-! ## Reading -/

/-- A name in brackets is that of a list type. -/
theorem ofText_list (inner : String) : ofText (bracketed 1 inner) = (ofText inner).map list := by
  have wrapped : listArgument? (bracketed 1 inner).toList = some inner.toList :=
    listArgument?_iff.mpr (by simp [bracketed])
  unfold ofText
  rw [ofLetters]
  split
  · next other same =>
    cases same.symm.trans wrapped
    rfl
  · next none => cases none.symm.trans wrapped

/-- A name with brackets around it is read as lists of what is read inside them. -/
theorem ofText_bracketed (depth : Nat) (inner : String) :
    ofText (bracketed depth inner) = (ofText inner).map (nested depth) := by
  induction depth with
  | zero =>
    cases outcome : ofText inner with
    | ok type => simp [bracketed, outcome, Except.map, nested]
    | error part => simp [bracketed, outcome, Except.map]
  | succ depth inductionHypothesis =>
    change ofText (bracketed 1 (bracketed depth inner)) = _
    rw [ofText_list, inductionHypothesis]
    cases ofText inner with
    | ok type => rfl
    | error part => rfl

/-- A name without brackets is looked up among the base types. -/
theorem ofText_plain {name : String} (plain : ∀ inner, name ≠ bracketed 1 inner) :
    ofText name = match ofBaseName? name with
      | some type => .ok type
      | none => .error name := by
  have unwrapped : listArgument? name.toList = none := by
    rw [Option.eq_none_iff_forall_not_mem]
    intro inner wrapped
    refine plain (String.ofList inner) (String.toList_inj.mp ?_)
    rw [listArgument?_iff.mp wrapped]
    simp [bracketed]
  unfold ofText
  rw [ofLetters]
  split
  · next inner same => cases same.symm.trans unwrapped
  · cases found : ofBaseName? name with
    | some type => simp [found]
    | none => simp [found]

/-- The names of the base types are their texts. -/
theorem ofBaseName?_iff {name : String} {type : Ty} :
    ofBaseName? name = some type ↔ type ∈ base ∧ name = type.text := by
  constructor
  · intro found
    have named : type.text = name := by
      simpa using List.find?_some found
    exact ⟨List.mem_of_find?_eq_some found, named.symm⟩
  · rintro ⟨member, rfl⟩
    revert type
    decide

/-- A name is read as the type that it is the written form of. -/
theorem ofText_iff {name : String} {type : Ty} : ofText name = .ok type ↔ name = type.text := by
  constructor
  · intro read
    obtain ⟨depth, part, rfl, plain⟩ := exists_bracketed name
    rw [ofText_bracketed, ofText_plain plain] at read
    split at read
    · next inner found =>
      obtain ⟨_, rfl⟩ := ofBaseName?_iff.mp found
      obtain rfl := Except.ok.inj read
      rw [text_nested]
    · cases read
  · rintro rfl
    obtain ⟨depth, inner, member, rfl⟩ := exists_nested type
    rw [text_nested, ofText_bracketed, ofText_plain (text_plain member),
      ofBaseName?_iff.mpr ⟨member, rfl⟩]
    rfl

/-- The name of a type means the type. -/
theorem ofText_text (type : Ty) : ofText type.text = .ok type :=
  ofText_iff.mpr rfl

/-- A name is refused for what stands in all of its brackets, when that is no base type. -/
theorem ofText_error_iff {name part : String} :
    ofText name = .error part ↔
      (∃ depth, name = bracketed depth part) ∧ (∀ inner, part ≠ bracketed 1 inner) ∧
        ∀ type ∈ base, part ≠ type.text := by
  constructor
  · intro read
    obtain ⟨depth, innermost, rfl, plain⟩ := exists_bracketed name
    rw [ofText_bracketed, ofText_plain plain] at read
    split at read
    · cases read
    · next unknown =>
      obtain rfl := Except.error.inj read
      refine ⟨⟨depth, rfl⟩, plain, fun type member same => ?_⟩
      rw [ofBaseName?_iff.mpr ⟨member, same⟩] at unknown
      cases unknown
  · rintro ⟨⟨depth, rfl⟩, plain, unknown⟩
    have missing : ofBaseName? part = none := by
      rw [Option.eq_none_iff_forall_not_mem]
      intro type found
      obtain ⟨member, same⟩ := ofBaseName?_iff.mp found
      exact unknown type member same
    rw [ofText_bracketed, ofText_plain plain, missing]
    rfl

end Blockscript.Ty
