import Blockscript.Proofs.Grammar.Completion
import Blockscript.Proofs.Grammar.Exactness
import Blockscript.Proofs.Grammar.Locality
import Mathlib

/-!
# Where a mismatch is reported

A text that is no program is refused at the first token that no program could have there.
Two facts make up this place. What stands in front of it can be completed, because a rule
that fails has only begun a phrase so far. And with the token itself nothing can be
completed, because the rule has failed for that token, whatever else would have followed.

When the tokens end too early there is no such token, and the place is behind the last one.

An integer with too many digits is impossible in every place. Where it stands for an operand,
the place is still the right one, but what is reported is the integer and not its place.
-/

namespace Blockscript.Grammar

variable {rest tokens : List Token} {cause : Cause}

/-- Further tokens make the front a program that is read to its end. -/
def Viable (front : List Token) : Prop :=
  ∃ more result, finish (program (front ++ more)) = .ok result

/-- Further tokens do so, all of which lexing gives. -/
def Completable (front : List Token) : Prop :=
  ∃ more, (∀ token ∈ more, token.Genuine) ∧
    ∃ result, finish (program (front ++ more)) = .ok result

/-- What tokens of the lexer complete is completed. -/
theorem Completable.viable {front : List Token} (completable : Completable front) :
    Viable front := by
  obtain ⟨more, _, result, finished⟩ := completable
  exact ⟨more, result, finished⟩

/-- Where the token with the number starts, or where the last token stops when there are
fewer tokens. -/
def offsetAt (tokens : List Token) (place : Nat) : Nat :=
  match tokens[place]? with
  | some token => token.offset
  | none => (tokens.getLast?.map Token.stop).getD 0

/-- A program rule that fails on all of the tokens reports its cause. -/
theorem finish_error {fault : ReadFault} (failed : finish (program tokens) = .error fault) :
    ∃ cause rest, (program tokens).Fails cause rest ∧
      fault = (Mismatch.mk cause rest).toFault tokens := by
  unfold finish at failed
  split at failed
  · next mismatch outcome =>
    cases failed
    exact ⟨mismatch.cause, mismatch.rest, outcome, rfl⟩
  · cases failed

/-- A mismatch lies where the tokens from the misfit on start. -/
theorem mismatch_offset (front rest : List Token) (cause : Cause) :
    (Mismatch.mk cause rest).offset (front ++ rest) = offsetAt (front ++ rest) front.length := by
  cases rest with
  | nil => simp [Mismatch.offset, offsetAt]
  | cons token others => simp [Mismatch.offset, offsetAt]

/-- What stands in front of the misfit can be completed. -/
theorem fails_completable {front : List Token} (readable : ∀ token ∈ front, token.Readable)
    (failed : (program (front ++ rest)).Fails cause rest) : Completable front := by
  obtain ⟨other, more, tree, same, inside, derived⟩ := program_begun failed
  obtain rfl := List.append_cancel_right same
  have further : ∀ token ∈ more, token.Readable :=
    fun token member => spare_readable token (inside member)
  have all : ∀ token ∈ front ++ more, token.Readable := by
    intro token member
    rcases List.mem_append.mp member with earlier | later
    · exact readable token earlier
    · exact further token later
  exact ⟨more, genuine_of_readable further, _,
    finish_ok_iff.mpr ⟨[], program_complete derived all, rfl⟩⟩

/-- With the misfit nothing can be completed. -/
theorem fails_impossible {front others : List Token} {token : Token}
    (failed : (program (front ++ token :: rest)).Fails cause (token :: rest)) :
    ¬ Viable (front ++ token :: others) := by
  rintro ⟨more, ⟨tree, count⟩, finished⟩
  obtain ⟨_, other, same, _, alike⟩ := program_traced _ (.error cause) _ failed
  obtain rfl := List.append_cancel_right same
  obtain ⟨_, gives, _⟩ := finish_ok_iff.mp finished
  -- The rule has looked no further than the misfit, so it fails on this list as well.
  have again := alike (token :: others ++ more) rfl
  rw [List.append_assoc] at gives
  exact gives.not_fails again

/-- The front of the misfit is the longest part of the tokens that can be completed. -/
theorem fails_greatest {front : List Token} (readable : ∀ token ∈ front, token.Readable)
    (failed : (program (front ++ rest)).Fails cause rest) :
    IsGreatest {count | count ≤ (front ++ rest).length ∧ Viable ((front ++ rest).take count)}
      front.length := by
  constructor
  · refine ⟨by simp, ?_⟩
    rw [List.take_left]
    exact (fails_completable readable failed).viable
  · rintro count ⟨inside, viable⟩
    by_contra longer
    cases rest with
    | nil => simp at inside; omega
    | cons token others =>
      have begins : (front ++ token :: others).take count =
          front ++ token :: others.take (count - front.length - 1) := by
        obtain ⟨more, rfl⟩ : ∃ more, count = front.length + (more + 1) :=
          ⟨count - front.length - 1, by omega⟩
        simp [List.take_append]
      rw [begins] at viable
      exact fails_impossible failed viable

/-- What is reported of the token with the number: an error of the grammar at its place, or
that it is an integer with too many digits. -/
def Reported (tokens : List Token) (place : Nat) (fault : ReadFault) : Prop :=
  (∃ error, fault = .ungrammatical error ∧ error.offset = offsetAt tokens place) ∨
  ∃ token, tokens[place]? = some token ∧ ¬ token.Legible ∧
    fault = .numeral (.overlong token.figures)

/-- What is reported of a misfit. -/
theorem toFault_reported {front : List Token}
    (genuine : ∀ token ∈ front ++ rest, token.Genuine)
    (blamed : Blamed (.error cause : Except Cause Unit) rest) :
    Reported (front ++ rest) front.length ((Mismatch.mk cause rest).toFault (front ++ rest)) := by
  cases cause with
  | expected what => exact .inl ⟨_, rfl, mismatch_offset front rest (.expected what)⟩
  | numeral fault =>
    obtain ⟨token, first, spoiled⟩ := blamed fault rfl
    obtain ⟨others, rfl⟩ := List.head?_eq_some_iff.mp first
    obtain ⟨illegible, rfl⟩ := (literal?_error_iff (genuine token (by simp))).mp spoiled
    exact .inr ⟨token, by simp, illegible, rfl⟩

/-- A text that lexes and is no program is refused at the first impossible token. The tokens
in front of it are the longest part of the text that further tokens complete to a program, and
these may be ones that lexing gives. When all the tokens are such a part, the place is behind
the last of them. The place is reported, unless the token there is an integer with too many
digits and this is reported instead. -/
theorem fails_at_first_impossible_or_overlong {source : String} {tokens : List Token}
    {fault : ReadFault} (lexed : Token.ofText source = .ok tokens)
    (failed : finish (program tokens) = .error fault) :
    ∃ place, IsGreatest {count | count ≤ tokens.length ∧ Viable (tokens.take count)} place ∧
      Completable (tokens.take place) ∧ Reported tokens place fault := by
  have genuine := Token.ofText_genuine lexed
  obtain ⟨cause, rest, fails, rfl⟩ := finish_error failed
  obtain ⟨blamed, front, rfl, legible, _⟩ := program_traced tokens (.error cause) rest fails
  have readable : ∀ token ∈ front, token.Readable := fun token member =>
    have here := genuine token (List.mem_append_left _ member)
    ⟨here, legible token member here⟩
  refine ⟨front.length, fails_greatest readable fails, ?_, toFault_reported genuine blamed.error⟩
  rw [List.take_left]
  exact fails_completable readable fails

/-- The tokens of an assignment to a call. -/
def assigned : List Token :=
  [⟨.identifier, "FUN", 0⟩, ⟨.identifier, "g", 4⟩, ⟨.operator, "(", 5⟩, ⟨.operator, ")", 6⟩,
    ⟨.identifier, "DO", 8⟩, ⟨.identifier, "f", 11⟩, ⟨.operator, "(", 12⟩, ⟨.operator, ")", 13⟩,
    ⟨.operator, "=", 15⟩, ⟨.integer, "2", 17⟩, ⟨.operator, ";", 18⟩, ⟨.identifier, "END", 20⟩]

/-- A call is not assigned to, and the equals sign is where this shows. -/
theorem assigned_fails :
    Token.ofText "FUN g() DO f() = 2; END" = .ok assigned ∧
      finish (program assigned) = .error (.ungrammatical ⟨.expected (.word ";"), 15⟩) ∧
      ∃ place, IsGreatest {count | count ≤ assigned.length ∧ Viable (assigned.take count)} place ∧
        Completable (assigned.take place) ∧
        Reported assigned place (.ungrammatical ⟨.expected (.word ";"), 15⟩) := by
  have lexed : Token.ofText "FUN g() DO f() = 2; END" = .ok assigned := by cbv
  have failed :
      finish (program assigned) = .error (.ungrammatical ⟨.expected (.word ";"), 15⟩) := by cbv
  exact ⟨lexed, failed, fails_at_first_impossible_or_overlong lexed failed⟩

/-- An integer of 4301 digits is the first impossible token of its text, and the text is
refused without an error that has a place. -/
theorem overlong_without_place :
    Token.ofText ("VAR x = " ++ ones 4301 ++ " ;") = .ok (onesGlobal 4301) ∧
      finish (program (onesGlobal 4301)) = .error (.numeral (.overlong 4301)) ∧
      ¬ ∃ error, finish (program (onesGlobal 4301)) = .error (.ungrammatical error) := by
  have failed : finish (program (onesGlobal 4301)) = .error (.numeral (.overlong 4301)) :=
    global_spoiled (ones_overlong 4300 (by decide) 8)
  refine ⟨onesGlobal_lexed 4300, failed, ?_⟩
  rintro ⟨error, other⟩
  rw [failed] at other
  cases other

end Blockscript.Grammar
