import Blockscript.Proofs.Grammar.Written
import Blockscript.Proofs.Typing.Naming

/-!
# Type names in programs

A type is spelled by tokens, put together to a name, and looked up by taking that name
apart again. The name is what the words of the tokens give when nothing stands between them,
so blanks do not matter; and because no word of a name has a bracket in it, the brackets that
are taken off the name are those that were put on by the tokens. So a name is read as a type
exactly when the tokens spell it, and is refused for the words in the innermost list brackets
when they spell none.
-/

namespace Blockscript.Grammar

open Phrase (TypeName)

variable {segment tokens rest : List Token} {name inner : String}

/-- The words of tokens. -/
def words (tokens : List Token) : List String :=
  tokens.map Token.text

/-- Words in the brackets of so many list types. -/
def wrapped : Nat → List String → List String
  | 0, inner => inner
  | depth + 1, inner => "List" :: "<" :: wrapped depth inner ++ [">"]

/-- Words in brackets join to a name in brackets. -/
theorem join_wrapped (depth : Nat) (inner : List String) :
    String.join (wrapped depth inner) = Ty.bracketed depth (String.join inner) := by
  induction depth with
  | zero => rfl
  | succ depth inductionHypothesis =>
    simp [← String.toList_inj, wrapped, Ty.bracketed, inductionHypothesis]

/-- A type name is what its words join to. -/
theorem Phrase.TypeName.join (phrase : TypeName segment name) :
    name = String.join (words segment) := by
  induction phrase with
  | plain _ => simp [words]
  | applied _ opens _ closes inductionHypothesis =>
    simp only [words] at inductionHypothesis
    simp [words, opens, closes, inductionHypothesis, String.append_assoc]

/-- A name has no bracket in it. -/
theorem bracket_notMem {letters : List Char} (isName : TokenKind.IsName letters) :
    '<' ∉ letters := by
  obtain ⟨first, others, rfl, starts, continues⟩ := isName
  intro member
  rcases List.mem_cons.mp member with rfl | later
  · cases starts
  · cases continues '<' later

/-- Lists that are the same are cut at their first mark alike. -/
theorem cut_unique {mark : Char} {front back other behind : List Char} (clear : mark ∉ front)
    (free : mark ∉ other) (same : front ++ mark :: back = other ++ mark :: behind) :
    front = other ∧ back = behind := by
  induction front generalizing other with
  | nil =>
    cases other with
    | nil => simpa using same
    | cons letter others =>
      cases same
      simp at free
  | cons letter front inductionHypothesis =>
    cases other with
    | nil =>
      cases same
      simp at clear
    | cons letter others =>
      simp only [List.cons_append, List.cons.injEq] at same
      simp only [List.mem_cons, not_or] at clear free
      obtain ⟨rfl, rfl⟩ := inductionHypothesis clear.2 free.2 same.2
      exact ⟨by rw [same.1], rfl⟩

/-- The tokens of a name in list brackets have the brackets around the tokens of what is in
them. -/
theorem Phrase.TypeName.unwrap (phrase : TypeName segment (Ty.bracketed 1 inner))
    (genuine : ∀ token ∈ segment, token.Genuine) :
    ∃ middle, TypeName middle inner ∧ (∀ token ∈ middle, token.Genuine) ∧
      words segment = wrapped 1 (words middle) := by
  generalize whole : Ty.bracketed 1 inner = name at phrase
  have letters := congrArg String.toList whole
  cases phrase with
  | @plain name kind =>
    have bare := bracket_notMem ((genuine name (by simp)).isName kind)
    rw [← letters] at bare
    simp [Ty.bracketed] at bare
  | @applied name opening closing middle argument kind opens inside closes =>
    have bare := bracket_notMem ((genuine name (by simp)).isName kind)
    -- Both names are cut at their first opening bracket.
    have cut : "List".toList ++ '<' :: (inner.toList ++ ['>']) =
        name.text.toList ++ '<' :: (argument.toList ++ ['>']) := by
      simpa [Ty.bracketed] using letters
    obtain ⟨list, same⟩ := cut_unique (by decide) bare cut
    obtain rfl : inner = argument := String.toList_inj.mp (List.append_cancel_right same)
    refine ⟨middle, inside, fun token member => genuine token (by simp [member]), ?_⟩
    simp [words, wrapped, opens, closes, ← String.toList_inj.mp list]

/-- The tokens of a name with brackets all around it are those of the name inside, with as many
brackets around them. -/
theorem Phrase.TypeName.unwrap_all (depth : Nat) :
    ∀ {segment : List Token}, TypeName segment (Ty.bracketed depth inner) →
      (∀ token ∈ segment, token.Genuine) → ∃ middle, TypeName middle inner ∧
        (∀ token ∈ middle, token.Genuine) ∧ words segment = wrapped depth (words middle) := by
  induction depth with
  | zero =>
    intro segment phrase genuine
    exact ⟨segment, phrase, genuine, rfl⟩
  | succ depth inductionHypothesis =>
    intro segment phrase genuine
    obtain ⟨between, phrase, genuine, outer⟩ := phrase.unwrap genuine
    obtain ⟨middle, phrase, genuine, same⟩ := inductionHypothesis phrase genuine
    exact ⟨middle, phrase, genuine, by rw [outer, same]; rfl⟩

/-- The name of a base type is a single word. -/
theorem Phrase.TypeName.base {type : Ty} (member : type ∈ Ty.base)
    (phrase : TypeName segment type.text) : words segment = [type.text] := by
  have outside : ∀ type ∈ Ty.base, '<' ∉ type.text.toList := by
    decide
  generalize whole : type.text = name at phrase
  cases phrase with
  | plain _ => rfl
  | applied _ _ _ _ =>
    have bare := outside type member
    simp [whole] at bare

/-- A name is read as a type exactly when its words are those of a base type in brackets, and
as lists of so many levels then. -/
theorem Phrase.TypeName.ofText_iff {type : Ty} (phrase : TypeName segment name)
    (genuine : ∀ token ∈ segment, token.Genuine) :
    Ty.ofText name = .ok type ↔
      ∃ depth, ∃ inner ∈ Ty.base,
        words segment = wrapped depth [inner.text] ∧ type = Ty.nested depth inner := by
  rw [Ty.ofText_iff]
  constructor
  · rintro rfl
    obtain ⟨depth, inner, member, rfl⟩ := Ty.exists_nested type
    rw [Ty.text_nested] at phrase
    obtain ⟨middle, phrase, _, same⟩ := phrase.unwrap_all depth genuine
    exact ⟨depth, inner, member, by rw [same, phrase.base member], rfl⟩
  · rintro ⟨depth, inner, _, same, rfl⟩
    rw [phrase.join, same, join_wrapped, Ty.text_nested]
    simp

/-- Any other name is refused for what its words join to when all list brackets are off. -/
theorem Phrase.TypeName.ofText_error (phrase : TypeName segment name)
    (genuine : ∀ token ∈ segment, token.Genuine)
    (unspelled : ∀ depth, ∀ inner ∈ Ty.base, words segment ≠ wrapped depth [inner.text]) :
    ∃ depth inner, words segment = wrapped depth inner ∧ (∀ more, inner ≠ wrapped 1 more) ∧
      Ty.ofText name = .error (String.join inner) := by
  cases outcome : Ty.ofText name with
  | ok type =>
    obtain ⟨depth, inner, member, spelled, _⟩ := (phrase.ofText_iff genuine).mp outcome
    exact absurd spelled (unspelled depth inner member)
  | error part =>
    obtain ⟨⟨depth, rfl⟩, plain, _⟩ := Ty.ofText_error_iff.mp outcome
    obtain ⟨middle, phrase, _, same⟩ := phrase.unwrap_all depth genuine
    refine ⟨depth, words middle, same, fun more wraps => ?_, by rw [← phrase.join]⟩
    apply plain (String.join more)
    rw [phrase.join, wraps, join_wrapped]

/-- A list global has the type name that stands behind its name, in list brackets. -/
theorem globalDef_list {definition : GlobalDef .bare} (list : startsWith "LIST" tokens = true)
    (gives : (globalDef tokens).Gives definition rest) :
    ∃ element after, (optionalType (tokens.drop 2)).Gives element after ∧
      definition.typeName = element.map (Ty.bracketed 1) := by
  cases tokens with
  | nil => cases list
  | cons start others =>
    have word : start.text = "LIST" := by simpa [startsWith] using list
    simp only [globalDef, word, ↓reduceIte, behind_gives, andThen_gives, giving_gives,
      listGlobal, identifier_gives] at gives
    obtain ⟨_, _, _, ⟨_, _, _, ⟨name, _, _, rfl⟩, element, after, _, typed, _, _, _, _, _, _, _, _,
      listed⟩, _, rfl⟩ := gives
    split at listed
    · exact (refuse_gives.mp listed).elim
    · obtain ⟨elements, _, rfl⟩ := map_gives.mp listed
      exact ⟨element, after, typed, rfl⟩

/-- Names and types belong to each other one to one. The text that is read from the tokens of
a program, wherever they stand and whatever is between them, means the type that its words
spell, and is refused for its innermost words when they spell none; and a list global is of
the list type of what its annotation means. -/
theorem names_spell_types {source : String} {front tokens : List Token}
    (lexed : Token.ofText source = .ok (front ++ tokens)) :
    (∀ type : Ty, Ty.ofText type.text = .ok type) ∧
    (∀ name type, Ty.ofText name = .ok type → type.text = name) ∧
    (∀ name part, Ty.ofText name = .error part ↔
      (∃ depth, name = Ty.bracketed depth part) ∧ (∀ inner, part ≠ Ty.bracketed 1 inner) ∧
        ∀ type ∈ Ty.base, part ≠ type.text) ∧
    (∀ name count, finish (typeName tokens) = .ok (name, count) →
      name = String.join (words (tokens.take count)) ∧
      (∀ type, Ty.ofText name = .ok type ↔ ∃ depth, ∃ inner ∈ Ty.base,
        words (tokens.take count) = wrapped depth [inner.text] ∧ type = Ty.nested depth inner) ∧
      ((∀ depth, ∀ inner ∈ Ty.base, words (tokens.take count) ≠ wrapped depth [inner.text]) →
        ∃ depth inner, words (tokens.take count) = wrapped depth inner ∧
          (∀ more, inner ≠ wrapped 1 more) ∧ Ty.ofText name = .error (String.join inner))) ∧
    (∀ definition count, startsWith "LIST" tokens = true →
      finish (globalDef tokens) = .ok (definition, count) →
      ∃ element rest, (optionalType (tokens.drop 2)).Gives element rest ∧
        definition.typeName = element.map (Ty.bracketed 1) ∧
        ∀ name ∈ element, Ty.ofText (Ty.bracketed 1 name) = (Ty.ofText name).map .list) := by
  refine ⟨Ty.ofText_text, fun name type read => (Ty.ofText_iff.mp read).symm,
    fun name part => Ty.ofText_error_iff, ?_, ?_⟩
  · intro name count finished
    obtain ⟨rest, gives, rfl⟩ := finish_ok_iff.mp finished
    obtain ⟨segment, rfl, phrase⟩ := typeName_sound gives
    have read : (segment ++ rest).take ((segment ++ rest).length - rest.length) = segment := by
      simp
    have genuine : ∀ token ∈ segment, token.Genuine := fun token member =>
      Token.ofText_genuine lexed token (by simp [member])
    rw [read]
    exact ⟨phrase.join, fun type => phrase.ofText_iff genuine, phrase.ofText_error genuine⟩
  · intro definition count list finished
    obtain ⟨rest, gives, _⟩ := finish_ok_iff.mp finished
    obtain ⟨element, after, typed, named⟩ := globalDef_list list gives
    exact ⟨element, after, typed, named, fun name _ => Ty.ofText_list name⟩

/-- The tokens of a list global, of which the type is written with blanks in it. -/
def spacedList : List Token :=
  [⟨.identifier, "LIST", 0⟩, ⟨.identifier, "xs", 5⟩, ⟨.operator, ":", 7⟩,
    ⟨.identifier, "List", 9⟩, ⟨.operator, "<", 14⟩, ⟨.identifier, "List", 16⟩,
    ⟨.operator, "<", 20⟩, ⟨.identifier, "Nil", 21⟩, ⟨.operator, ">", 25⟩, ⟨.operator, ">", 26⟩,
    ⟨.operator, "=", 28⟩, ⟨.operator, "[", 30⟩, ⟨.operator, "[", 31⟩, ⟨.operator, "]", 32⟩,
    ⟨.operator, "]", 33⟩, ⟨.operator, ";", 34⟩]

/-- Its annotation means the type that the tokens spell, and the global is of lists of that. -/
theorem spacedList_spelled :
    Token.ofText "LIST xs: List < List<Nil >> = [[]];" = .ok spacedList ∧
      finish (typeName (spacedList.drop 3)) = .ok ("List<List<Nil>>", 7) ∧
      Ty.ofText "List<List<Nil>>" = .ok (.list (.list .nil)) ∧
      ∃ element rest, (optionalType (spacedList.drop 2)).Gives element rest ∧
        some "List<List<List<Nil>>>" = element.map (Ty.bracketed 1) ∧
        ∀ name ∈ element, Ty.ofText (Ty.bracketed 1 name) = (Ty.ofText name).map .list := by
  have lexed : Token.ofText "LIST xs: List < List<Nil >> = [[]];" = .ok spacedList := by cbv
  have read : finish (typeName (spacedList.drop 3)) = .ok ("List<List<Nil>>", 7) := by cbv
  have defined : finish (globalDef spacedList) = .ok (⟨"xs", some "List<List<List<Nil>>>", true,
      some (.list () [.list () []]), ()⟩, 16) := by
    cbv
  obtain ⟨_, _, _, types, _⟩ := @names_spell_types _ (spacedList.take 3) (spacedList.drop 3) lexed
  obtain ⟨_, _, _, _, globals⟩ := @names_spell_types _ [] spacedList lexed
  exact ⟨lexed, read, ((types _ _ read).2.1 _).mpr ⟨2, .nil, by decide, rfl, rfl⟩,
    globals _ _ rfl defined⟩

/-- What is refused is the part without brackets, even if there is nothing in them. -/
example : Ty.ofText "List<>" = .error "" ∧ Ty.ofText "List<List<" = .error "List<List<" ∧
    Ty.ofText "List<Pair<Nil>>" = .error "Pair<Nil>" := by
  refine ⟨by cbv, by cbv, by cbv⟩

end Blockscript.Grammar
