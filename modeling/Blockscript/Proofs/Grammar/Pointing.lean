import Blockscript.Proofs.Grammar.Placement
import Blockscript.Proofs.Token.Diagnosis

/-!
# Syntax errors point into the text

An error of the grammar lies at a token or behind the last one, so it lies inside of what the
tokens cover. An error of lexing lies at a place where no token begins, or in the broken
literal there, and this literal ends with the text at the latest.

There is one exception. A character literal is blamed where its closing quote should stand,
which is two characters behind the opening one. When the text ends with an opening quote, this
place is beyond the end of the text.
-/

namespace Blockscript

open Token

variable {source : String} {tokens : List Token} {error : SyntaxError} {rest : List Char}
  {offset place : Nat}

/-! ## Faults of literals -/

namespace Token

/-- A string literal is blamed inside of the text. -/
theorem stringFault_offset (broken : TokenKind.stringTail? rest = none) :
    (stringFault offset rest).offset ≤ offset + rest.length := by
  obtain ⟨fault, front, behind, rfl, _, found⟩ := stringFault_spoils offset broken
  rw [found, List.length_append]
  simp only
  omega

/-- A character literal is blamed inside of the text, unless its quote ends the text. -/
theorem characterFault_offset (some : rest ≠ []) :
    (characterFault offset rest).offset ≤ offset + rest.length := by
  have positive : 0 < rest.length := List.length_pos_iff.mpr some
  unfold characterFault
  split
  · split <;> simp
  · simp
  · simp only
    omega

/-- Behind the place where scanning is stuck, an error points into the text unless a single
quote stands there as its last character. -/
theorem faultAt_offset {first : Char} (stuck : StuckAt source.toList place)
    (there : source.toList.drop place = first :: rest)
    (inside : ¬ (first = '\'' ∧ rest = [])) :
    (faultAt place first rest).offset ≤ source.length := by
  have length : source.length = place + 1 + rest.length := by
    have within := lt_length there
    have counted := congrArg List.length there
    rw [List.length_drop, List.length_cons] at counted
    rw [← String.length_toList]
    omega
  rw [length]
  unfold faultAt
  split
  · next quote =>
    subst quote
    exact stringFault_offset (stuck.stringTail? there)
  · split
    · next quote => exact characterFault_offset fun nothing => inside ⟨quote, nothing⟩
    · simp only
      omega

end Token

/-! ## Errors of the grammar -/

/-- What a token is at or stops at lies inside of the text. -/
theorem offsetAt_le (cover : Cover source.toList 0 source.toList.length tokens) :
    Grammar.offsetAt tokens place ≤ source.length := by
  have stops : ∀ token ∈ tokens, token.stop ≤ source.length := fun token member =>
    String.length_toList ▸ (cover.inside token member).2
  unfold Grammar.offsetAt
  split
  · next token found =>
    have stop := stops token (List.mem_of_getElem? found)
    rw [Token.stop] at stop
    omega
  · cases last : tokens.getLast? with
    | none => simp
    | some token => simpa using stops token (List.mem_of_getLast? last)

/-- A misfit lies at one of the tokens, or where the last one stops. -/
theorem finish_offset
    (failed : Grammar.finish (Grammar.program tokens) = .error (.ungrammatical error)) :
    ∃ place, error.offset = Grammar.offsetAt tokens place := by
  obtain ⟨cause, rest, fails, same⟩ := Grammar.finish_error failed
  obtain ⟨_, front, rfl, _⟩ := Grammar.program_traced tokens (.error cause) rest fails
  cases cause with
  | expected what =>
    cases same
    exact ⟨front.length, Grammar.mismatch_offset front rest (.expected what)⟩
  | numeral fault => cases same

/-! ## Whole texts -/

/-- The text ends with a single quote that begins a character literal. -/
def EndsInQuote (source : String) : Prop :=
  ∃ place, StuckAt source.toList place ∧ source.toList.drop place = ['\'']

/-- A syntax error of a text is one of lexing or one of the grammar. -/
theorem parseProgram_error (failed : parseProgram source = .error (.ungrammatical error)) :
    ofText source = .error error ∨ ∃ tokens, ofText source = .ok tokens ∧
      Grammar.finish (Grammar.program tokens) = .error (.ungrammatical error) := by
  cases lexed : ofText source with
  | error fault =>
    left
    simpa [parseProgram, lexed, Except.mapError, bind, Except.bind] using failed
  | ok tokens =>
    right
    refine ⟨tokens, rfl, ?_⟩
    cases finished : Grammar.finish (Grammar.program tokens) with
    | error fault =>
      simpa [parseProgram, lexed, finished, Except.mapError, bind, Except.bind] using failed
    | ok outcome =>
      simp [parseProgram, lexed, finished, Except.mapError, bind, Except.bind, pure,
        Except.pure] at failed

/-- An opening quote at the end is blamed beyond the end. -/
theorem EndsInQuote.fails (ends : EndsInQuote source) :
    parseProgram source = .error (.ungrammatical ⟨.invalidCharacter, source.length + 1⟩) := by
  obtain ⟨place, stuck, there⟩ := ends
  have length : source.length = place + 1 := by
    have within := lt_length there
    have counted := congrArg List.length there
    rw [List.length_drop, List.length_singleton] at counted
    rw [← String.length_toList]
    omega
  unfold parseProgram
  rw [stuck.fails there, length]
  rfl

/-- Other errors point into the text. -/
theorem offset_le_of_not_endsInQuote (failed : parseProgram source = .error (.ungrammatical error))
    (inside : ¬ EndsInQuote source) : error.offset ≤ source.length := by
  rcases parseProgram_error failed with notLexed | ⟨tokens, lexed, notRead⟩
  · obtain ⟨place, first, rest, stuck, there, rfl⟩ := stuckAt_of_fails notLexed
    refine faultAt_offset stuck there ?_
    rintro ⟨rfl, rfl⟩
    exact inside ⟨place, stuck, there⟩
  · obtain ⟨place, same⟩ := finish_offset notRead
    rw [same]
    exact offsetAt_le ((scan_covers rfl).1 tokens lexed)

/-- A syntax error points into the text or to its end, whether lexing or the grammar has
found it, unless the text ends with the opening quote of a character literal. In that case,
and in no other, the error points one character beyond the end. -/
theorem syntax_errors_point_inside (failed : parseProgram source = .error (.ungrammatical error)) :
    (error.offset ≤ source.length ↔ ¬ EndsInQuote source) ∧
      (EndsInQuote source → error = ⟨.invalidCharacter, source.length + 1⟩) := by
  have quoted : EndsInQuote source → error = ⟨.invalidCharacter, source.length + 1⟩ :=
    fun ends => ReadFault.ungrammatical.inj (Except.error.inj (failed.symm.trans ends.fails))
  refine ⟨⟨?_, offset_le_of_not_endsInQuote failed⟩, quoted⟩
  intro inside ends
  rw [quoted ends] at inside
  simp only at inside
  omega

/-- A backslash as the last character of a string literal without an end: the error is at the
end of the text. -/
theorem trailing_backslash_inside :
    parseProgram "VAL c = \"a\\" = .error (.ungrammatical ⟨.invalidEscape, 11⟩) ∧
      (11 ≤ "VAL c = \"a\\".length ↔ ¬ EndsInQuote "VAL c = \"a\\") ∧
      (EndsInQuote "VAL c = \"a\\" →
        (⟨.invalidEscape, 11⟩ : SyntaxError) =
          ⟨.invalidCharacter, "VAL c = \"a\\".length + 1⟩) := by
  have failed : parseProgram "VAL c = \"a\\" =
      .error (.ungrammatical ⟨.invalidEscape, 11⟩) := by cbv
  exact ⟨failed, syntax_errors_point_inside failed⟩

/-- A text of nine characters with an error at the tenth one: not every syntax error points
into its text. -/
theorem quote_points_outside :
    parseProgram "VAL c = '" = .error (.ungrammatical ⟨.invalidCharacter, 10⟩) ∧
      "VAL c = '".length = 9 ∧
      ¬ ∀ (source : String) (error : SyntaxError),
        parseProgram source = .error (.ungrammatical error) → error.offset ≤ source.length := by
  have failed : parseProgram "VAL c = '" = .error (.ungrammatical ⟨.invalidCharacter, 10⟩) := by cbv
  have length : "VAL c = '".length = 9 := by decide
  refine ⟨failed, length, fun inside => ?_⟩
  have within := inside _ _ failed
  rw [length] at within
  simp at within

end Blockscript
