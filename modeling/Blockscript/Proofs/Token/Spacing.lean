import Blockscript.Proofs.Token.Scanning
import Blockscript.Text.Newline

/-!
# Blank characters between tokens

What is read from the front of a text is its longest member of any class, and blank
characters end every member: names, numbers and operators have none inside, and a quoted
literal is over at its closing quote, whatever stands behind it. So token texts that are
written with blank characters between them are read back, each with its class and where
it stands.

No member of a class reaches over the end of a line either, quoted ones included. A text
whose line ends are unified is therefore read as the same words at other places, and it is
refused just when the text itself is.
-/

namespace Blockscript

namespace TokenKind

variable {kind other : TokenKind} {letters others lexeme text rest more : List Char}

/-! ## Blank characters and members -/

/-- The classes whose members stand between quotes. -/
def quoted : List TokenKind :=
  [character, string]

/-- A digit is not blank. -/
theorem digit_dark {digit : Char} (isDigit : digit.isDigit = true) :
    Text.isBlank digit = false :=
  @opens_dark .integer digit (by simp [TokenKind.opens, isDigit])

/-- A letter that begins a name is not blank. -/
theorem startsName_dark {first : Char} (starts : startsName first = true) :
    Text.isBlank first = false :=
  @opens_dark .identifier first starts

/-- A letter that continues a name is not blank. -/
theorem continuesName_dark {letter : Char} (continues : continuesName letter = true) :
    Text.isBlank letter = false := by
  simp only [continuesName, Char.isAlphanum, Bool.or_eq_true, decide_eq_true_eq] at continues
  rcases continues with ((alpha | digit) | rfl) | rfl
  · exact startsName_dark (by simp [startsName, alpha])
  · exact digit_dark digit
  · decide
  · decide

/-- No letter of a number is blank. -/
theorem SignedNumber.dark (number : SignedNumber text) :
    ∀ letter ∈ text, Text.isBlank letter = false := by
  have whole {digits : List Char} (number : WholeNumber digits) :
      ∀ letter ∈ digits, Text.isBlank letter = false :=
    fun letter member => digit_dark (number.allDigits letter member)
  cases number with
  | plain number => exact whole number
  | negative number => exact List.forall_mem_cons.mpr ⟨by decide, whole number⟩

/-- No blank character stands in a name, a number or an operator. -/
theorem Member.dark (member : kind.Member text) (bare : kind ∉ quoted) :
    ∀ letter ∈ text, Text.isBlank letter = false := by
  cases member with
  | identifier starts all =>
    exact List.forall_mem_cons.mpr ⟨startsName_dark starts, fun letter member =>
      continuesName_dark (all letter member)⟩
  | integer number => exact number.dark
  | decimal number first all =>
    refine List.forall_mem_append.mpr ⟨number.dark, ?_⟩
    refine List.forall_mem_cons.mpr ⟨by decide, ?_⟩
    exact List.forall_mem_cons.mpr ⟨digit_dark first, fun digit member =>
      digit_dark (all digit member)⟩
  | character _ => exact absurd (by decide) bare
  | escape _ => exact absurd (by decide) bare
  | string _ => exact absurd (by decide) bare
  | pair member =>
    simp only [pairs, List.mem_cons, List.not_mem_nil, or_false] at member
    rcases member with rfl | rfl | rfl | rfl <;>
      exact List.forall_mem_cons.mpr ⟨by decide, List.forall_mem_singleton.mpr (by decide)⟩
  | operator allowed => exact List.forall_mem_singleton.mpr (isOperator_iff.mp allowed).1

/-- A quoted literal is read to its closing quote, whatever comes behind. -/
theorem Member.read_quoted (member : kind.Member text) (between : kind ∈ quoted)
    (rest : List Char) : kind.lexeme? (text ++ rest) = some text := by
  cases member with
  | identifier _ _ => exact absurd between (by decide)
  | integer _ => exact absurd between (by decide)
  | decimal _ _ _ => exact absurd between (by decide)
  | @character single plain =>
    have other : single ≠ '\\' := by
      rintro rfl
      cases plain
    simp [lexeme?, characterLexeme?, other, plain]
  | escape letter => simp [lexeme?, characterLexeme?, letter]
  | string quotable => simp [lexeme?, stringLexeme?, stringTail?_append quotable]
  | pair _ => exact absurd between (by decide)
  | operator _ => exact absurd between (by decide)

/-- A member of a class does not go on over a blank character as a member of any class. -/
theorem Member.ends_blank {blank : Char} (member : kind.Member text)
    (isBlank : Text.isBlank blank = true) : ¬ other.Member (text ++ blank :: more) := by
  intro longer
  by_cases between : other ∈ quoted
  · have same : kind = other := by
      rcases member.alike longer ⟨_, rfl⟩ List.prefix_rfl with same | ⟨_, bare⟩
      · exact same
      · simp only [TokenKind.alike, quoted, List.mem_cons, List.not_mem_nil, or_false]
          at bare between
        rcases between with rfl | rfl <;> simp at bare
    subst same
    have short := member.read_quoted between (blank :: more)
    have long := longer.read_quoted between []
    rw [List.append_nil] at long
    simpa using short.symm.trans long
  · have dark := longer.dark between blank (by simp)
    rw [dark] at isBlank
    cases isBlank

/-- A text belongs to a class exactly when the class reads all of it. -/
theorem member_iff_whole : kind.Member text ↔ kind.lexeme? text = some text := by
  constructor
  · intro member
    obtain ⟨more, read⟩ := member.read []
    rw [List.append_nil] at read
    have front := (lexeme?_member read).2
    have none : more = [] := by
      have within := front.length_le
      rw [List.length_append] at within
      exact List.eq_nil_of_length_eq_zero (by omega)
    rw [read, none, List.append_nil]
  · exact fun read => (lexeme?_member read).1

/-! ## What is read, as a longest member -/

/-- What is read is the longest member of any class at the front of the text. -/
theorem first?_eq_some_iff : first? letters = some (kind, lexeme) ↔
    kind.Member lexeme ∧ lexeme <+: letters ∧
      ∀ other text, Member other text → text <+: letters → text.length ≤ lexeme.length := by
  constructor
  · intro read
    obtain ⟨member, front⟩ := lexeme?_member (first?_asked read).1
    exact ⟨member, front, fun _ _ again ahead => first?_longest read again ahead⟩
  · rintro ⟨member, front, longest⟩
    cases read : first? letters with
    | none => exact absurd front (first?_eq_none_iff.mp read _ _ member)
    | some found =>
      obtain ⟨found, taken⟩ := found
      obtain ⟨again, ahead⟩ := lexeme?_member (first?_asked read).1
      have longer := first?_longest read member front
      have same : lexeme = taken :=
        (List.prefix_of_prefix_length_le front ahead longer).eq_of_length
          (le_antisymm longer (longest _ _ again ahead))
      subst same
      rw [again.unique member]

/-- A member of a class is read where the text ends behind it or goes on with a blank
character. -/
theorem Member.first? (member : kind.Member text)
    (ends : ∀ letter ∈ rest.head?, Text.isBlank letter = true) :
    first? (text ++ rest) = some (kind, text) := by
  refine first?_eq_some_iff.mpr ⟨member, ⟨rest, rfl⟩, fun other longer again ahead => ?_⟩
  by_contra beyond
  obtain ⟨more, rfl⟩ := List.prefix_of_prefix_length_le ⟨rest, rfl⟩ ahead (by omega)
  obtain ⟨tail, rfl⟩ := (List.prefix_append_right_inj text).mp ahead
  cases more with
  | nil => simp at beyond
  | cons blank more => exact member.ends_blank (ends blank (by simp)) again

end TokenKind

/-! ## Texts written with gaps -/

/-- The text of a token, and the blank characters that are written behind it. -/
structure Spaced where
  kind : TokenKind
  text : List Char
  gap : List Char
  member : kind.Member text
  blank : ∀ letter ∈ gap, Text.isBlank letter = true

namespace Spaced

/-- The pieces, one behind the other. -/
def written (pieces : List Spaced) : List Char :=
  pieces.flatMap fun piece => piece.text ++ piece.gap

/-- There is something blank behind every piece that another one follows. -/
def Apart (pieces : List Spaced) : Prop :=
  ∀ piece ∈ pieces.dropLast, piece.gap ≠ []

/-- The tokens of the pieces, from a place on. -/
def placed (offset : Nat) : List Spaced → List Token
  | [] => []
  | piece :: pieces =>
    ⟨piece.kind, String.ofList piece.text, offset⟩ ::
      placed (offset + piece.text.length + piece.gap.length) pieces

end Spaced

namespace Token

variable {letters rest gap : List Char} {offset : Nat}

/-- Blank characters are passed over. -/
theorem scan_gap (blank : ∀ letter ∈ gap, Text.isBlank letter = true) :
    scan offset (gap ++ rest) = scan (offset + gap.length) rest := by
  induction gap generalizing offset with
  | nil => simp
  | cons letter gap inductionHypothesis =>
    obtain ⟨here, behind⟩ := List.forall_mem_cons.mp blank
    rw [List.cons_append, scan_blank here, inductionHypothesis behind]
    congr 1
    simp only [List.length_cons]
    omega

/-- A piece in front of what begins blank is read as its token. -/
theorem scan_piece (piece : Spaced)
    (ends : ∀ letter ∈ (piece.gap ++ rest).head?, Text.isBlank letter = true) :
    scan offset (piece.text ++ (piece.gap ++ rest)) =
      (scan (offset + piece.text.length + piece.gap.length) rest).map
        (⟨piece.kind, String.ofList piece.text, offset⟩ :: ·) := by
  have read := piece.member.first? ends
  obtain ⟨first, others, same⟩ := List.exists_cons_of_ne_nil piece.member.ne_nil
  have dark : Text.isBlank first = false := TokenKind.opens_dark (same ▸ piece.member).opens
  rw [same, List.cons_append] at read ⊢
  rw [scan_token (by simpa using dark) read, ← List.cons_append, List.drop_left,
    scan_gap piece.blank]

/-- Pieces that stand apart are read as their tokens. -/
theorem scan_written {pieces : List Spaced} (apart : Spaced.Apart pieces) :
    scan offset (Spaced.written pieces) = .ok (Spaced.placed offset pieces) := by
  induction pieces generalizing offset with
  | nil => simp [Spaced.written, Spaced.placed, scan]
  | cons piece pieces inductionHypothesis =>
    have ends : ∀ letter ∈ (piece.gap ++ Spaced.written pieces).head?,
        Text.isBlank letter = true := by
      intro letter begins
      cases same : piece.gap with
      | cons blank gap =>
        rw [same] at begins
        cases begins
        exact piece.blank letter (by simp [same])
      | nil =>
        -- Without a gap this is the last piece.
        cases pieces with
        | nil => simp [same, Spaced.written] at begins
        | cons next pieces => exact absurd same (apart piece (by simp))
    have others : Spaced.Apart pieces := by
      intro later member
      cases pieces with
      | nil => simp at member
      | cons next pieces => exact apart later (by simp [member])
    have front : Spaced.written (piece :: pieces) =
        piece.text ++ (piece.gap ++ Spaced.written pieces) := by
      simp [Spaced.written]
    rw [front, scan_piece piece ends, inductionHypothesis others]
    rfl

/-- Pieces that stand apart are read as their tokens, whatever is blank before them. -/
theorem ofText_written {lead : List Char} {pieces : List Spaced}
    (blank : ∀ letter ∈ lead, Text.isBlank letter = true) (apart : Spaced.Apart pieces) :
    ofText (String.ofList (lead ++ Spaced.written pieces)) =
      .ok (Spaced.placed lead.length pieces) := by
  rw [ofText, String.toList_ofList, scan_gap blank, scan_written apart, Nat.zero_add]

/-- A text that belongs to a class is one token. -/
theorem ofText_member {kind : TokenKind} {text : String} (member : kind.Member text.toList) :
    ofText text = .ok [⟨kind, text, 0⟩] := by
  have read := @ofText_written [] [⟨kind, text.toList, [], member, by simp⟩] (by simp)
    (by simp [Spaced.Apart])
  simpa [Spaced.written, Spaced.placed] using read

end Token

/-! ## Line ends -/

namespace Text

variable {text letters rest : List Char} {first : Char}

/-- The characters that end a line. -/
def lineEnds : List Char :=
  ['\n', '\r']

/-- A character that is no carriage return is left as it is. -/
theorem unifyNewlines_cons (other : first ≠ '\r') :
    unifyNewlines (first :: rest) = first :: unifyNewlines rest := by
  simp [unifyNewlines, other]

/-- A carriage return becomes a line feed, together with a line feed behind it or alone. -/
theorem unifyNewlines_return (rest : List Char) :
    ∃ more, unifyNewlines ('\r' :: rest) = '\n' :: more ∧
      (unifyNewlines rest = more ∨ unifyNewlines rest = '\n' :: more) := by
  cases rest with
  | nil => exact ⟨[], rfl, .inl rfl⟩
  | cons next more =>
    by_cases feed : next = '\n'
    · subst feed
      exact ⟨unifyNewlines more, by simp [unifyNewlines], .inr (unifyNewlines_cons (by decide))⟩
    · exact ⟨unifyNewlines (next :: more), by simp [unifyNewlines, feed], .inl rfl⟩

/-- What stands within a line is kept. -/
theorem unifyNewlines_append (unbroken : ∀ letter ∈ text, letter ∉ lineEnds) :
    unifyNewlines (text ++ rest) = text ++ unifyNewlines rest := by
  induction text with
  | nil => rfl
  | cons first text inductionHypothesis =>
    obtain ⟨here, behind⟩ := List.forall_mem_cons.mp unbroken
    have other : first ≠ '\r' := by
      rintro rfl
      exact here (by decide)
    rw [List.cons_append, unifyNewlines_cons other, inductionHypothesis behind, List.cons_append]

/-- A text begins with the same texts on one line as before. -/
theorem prefix_unifyNewlines (unbroken : ∀ letter ∈ text, letter ∉ lineEnds) :
    text <+: unifyNewlines letters ↔ text <+: letters := by
  induction text generalizing letters with
  | nil => simp
  | cons first text inductionHypothesis =>
    obtain ⟨here, behind⟩ := List.forall_mem_cons.mp unbroken
    simp only [lineEnds, List.mem_cons, List.not_mem_nil, or_false, not_or] at here
    cases letters with
    | nil => simp [unifyNewlines]
    | cons letter rest =>
      by_cases carriage : letter = '\r'
      · subst carriage
        obtain ⟨more, same, _⟩ := unifyNewlines_return rest
        simp [same, here]
      · rw [unifyNewlines_cons carriage, List.cons_prefix_cons, List.cons_prefix_cons,
          inductionHypothesis behind]

end Text

namespace TokenKind

variable {kind : TokenKind} {letters text : List Char}

/-- No letter of an escape sequence ends a line. -/
theorem escapeLetter_unbroken {letter : Char} (escape : Text.isEscapeLetter letter = true) :
    letter ∉ Text.lineEnds := by
  simp only [Text.lineEnds, List.mem_cons, List.not_mem_nil, or_false]
  rintro (rfl | rfl) <;> cases escape

/-- Nothing in a string ends a line. -/
theorem Quotable.unbroken (quotable : Quotable text) :
    ∀ letter ∈ text, letter ∉ Text.lineEnds := by
  induction quotable with
  | empty => simp
  | plain free _ inductionHypothesis =>
    refine List.forall_mem_cons.mpr ⟨?_, inductionHypothesis⟩
    simp only [List.mem_cons, List.not_mem_nil, or_false, not_or] at free
    simp [Text.lineEnds, free]
  | escape letter _ inductionHypothesis =>
    refine List.forall_mem_cons.mpr ⟨by decide, ?_⟩
    exact List.forall_mem_cons.mpr ⟨escapeLetter_unbroken letter, inductionHypothesis⟩

/-- No member of a class reaches over the end of a line. -/
theorem Member.unbroken (member : kind.Member text) :
    ∀ letter ∈ text, letter ∉ Text.lineEnds := by
  by_cases bare : kind ∉ quoted
  · intro letter within lineEnd
    have blank : Text.isBlank letter = true := by
      simp only [Text.lineEnds, List.mem_cons, List.not_mem_nil, or_false] at lineEnd
      rcases lineEnd with rfl | rfl <;> decide
    rw [member.dark bare letter within] at blank
    cases blank
  · cases member with
    | @character single plain =>
      have here : single ∉ Text.lineEnds := by
        simp only [isPlain, Bool.and_eq_true, decide_eq_true_eq] at plain
        simp [Text.lineEnds, plain]
      simpa [Text.lineEnds] using here
    | escape letter =>
      have here := escapeLetter_unbroken letter
      simpa [Text.lineEnds] using here
    | string quotable =>
      refine List.forall_mem_append.mpr ⟨?_, List.forall_mem_singleton.mpr (by decide)⟩
      exact List.forall_mem_cons.mpr ⟨by decide, quotable.unbroken⟩
    | identifier _ _ => exact absurd (by decide) bare
    | integer _ => exact absurd (by decide) bare
    | decimal _ _ _ => exact absurd (by decide) bare
    | pair _ => exact absurd (by decide) bare
    | operator _ => exact absurd (by decide) bare

/-- Unified line ends leave what stands at the front of a text. -/
theorem first?_unifyNewlines (letters : List Char) :
    first? (Text.unifyNewlines letters) = first? letters := by
  have front {kind : TokenKind} {text : List Char} (member : kind.Member text) :
      text <+: Text.unifyNewlines letters ↔ text <+: letters :=
    Text.prefix_unifyNewlines member.unbroken
  refine Option.ext fun ⟨kind, lexeme⟩ => ?_
  rw [first?_eq_some_iff, first?_eq_some_iff]
  constructor
  · rintro ⟨member, ahead, longest⟩
    exact ⟨member, (front member).mp ahead, fun other text again before =>
      longest other text again ((front again).mpr before)⟩
  · rintro ⟨member, ahead, longest⟩
    exact ⟨member, (front member).mpr ahead, fun other text again before =>
      longest other text again ((front again).mp before)⟩

end TokenKind

namespace Token

variable {letters : List Char}

/-- The class and the text of a token, wherever it stands. -/
def word (token : Token) : TokenKind × String :=
  (token.kind, token.text)

/-- The words of what is read, if anything is. -/
def words (read : Except SyntaxError (List Token)) : Option (List (TokenKind × String)) :=
  read.toOption.map (·.map word)

/-- A token in front of what is read is a word in front of its words. -/
theorem words_map (token : Token) (read : Except SyntaxError (List Token)) :
    words (read.map (token :: ·)) = (words read).map (token.word :: ·) := by
  cases read <;> rfl

/-- The words do not depend on how the lines of a text end. -/
theorem words_scan_unifyNewlines (offset place : Nat) (letters : List Char) :
    words (scan place (Text.unifyNewlines letters)) = words (scan offset letters) := by
  induction offset, letters using scan.induct generalizing place with
  | case1 offset => simp [Text.unifyNewlines, scan]
  | case2 offset first rest blank inductionHypothesis =>
    rw [scan_blank blank]
    by_cases carriage : first = '\r'
    · subst carriage
      have feed : Text.isBlank '\n' = true := by decide
      obtain ⟨more, same, alone | together⟩ := Text.unifyNewlines_return rest
      · rw [same, scan_blank feed, ← alone, inductionHypothesis]
      · rw [same, ← together, inductionHypothesis]
    · rw [Text.unifyNewlines_cons carriage, scan_blank blank, inductionHypothesis]
  | case3 offset first rest dark none =>
    have carriage : first ≠ '\r' := by
      rintro rfl
      exact dark (by decide)
    have stuck : TokenKind.first? (first :: Text.unifyNewlines rest) = Option.none := by
      rw [← Text.unifyNewlines_cons carriage, TokenKind.first?_unifyNewlines, none]
    rw [Text.unifyNewlines_cons carriage, scan_stuck dark none, scan_stuck dark stuck]
    rfl
  | case4 offset first rest dark kind lexeme read inductionHypothesis =>
    have carriage : first ≠ '\r' := by
      rintro rfl
      exact dark (by decide)
    have again : TokenKind.first? (first :: Text.unifyNewlines rest) = some (kind, lexeme) := by
      rw [← Text.unifyNewlines_cons carriage, TokenKind.first?_unifyNewlines, read]
    obtain ⟨member, ⟨tail, split⟩, _⟩ := TokenKind.first?_eq_some_iff.mp read
    have behind : (first :: rest).drop lexeme.length = tail := by
      rw [← split, List.drop_left]
    have unified : (first :: Text.unifyNewlines rest).drop lexeme.length =
        Text.unifyNewlines tail := by
      rw [← Text.unifyNewlines_cons carriage, ← split, Text.unifyNewlines_append member.unbroken,
        List.drop_left]
    rw [Text.unifyNewlines_cons carriage, scan_token dark read, scan_token dark again, behind,
      unified, words_map, words_map]
    rw [behind] at inductionHypothesis
    rw [inductionHypothesis]
    rfl

end Token

end Blockscript
