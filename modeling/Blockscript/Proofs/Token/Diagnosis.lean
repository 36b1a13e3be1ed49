import Blockscript.Proofs.Token.Scanning

/-!
# How broken string literals are diagnosed

A place where no token begins ends the scanning, and it does so with one error. If a double
quote stands there, the literal behind it is read a second time, up to the first character
that no string literal has there, or to the end of the text.

What has been read of the literal by then is sound, so it begins some string literal; and
with the next character, if there is one, it begins none any more. Which fault is reported
can be told from the text around this place: a backslash that waits for its letter, the end
of a line, or the end of the text.
-/

namespace Blockscript

namespace TokenKind

variable {front rest behind whole : List Char}

/-! ## Beginnings of string literals -/

/-- What may stand in a string may do so behind something else that may. -/
theorem Quotable.append (sound : Quotable front) (quotable : Quotable behind) :
    Quotable (front ++ behind) := by
  induction sound with
  | empty => exact quotable
  | plain free _ inductionHypothesis => exact .plain free inductionHypothesis
  | escape letter _ inductionHypothesis => exact .escape letter inductionHypothesis

/-- A sound part of a literal is followed there by what may stand behind it. -/
theorem Quotable.cancel (sound : Quotable front) (quotable : Quotable whole)
    (ahead : front ++ rest <+: whole ++ ['"']) :
    ∃ others, Quotable others ∧ rest <+: others ++ ['"'] := by
  induction sound generalizing whole with
  | empty => exact ⟨whole, quotable, ahead⟩
  | @plain single inside free _ inductionHypothesis =>
    cases quotable with
    | empty => simp_all
    | plain _ others => exact inductionHypothesis others (List.cons_prefix_cons.mp ahead).2
    | escape _ _ =>
      obtain ⟨rfl, _⟩ := List.cons_prefix_cons.mp ahead
      simp at free
  | @escape letter inside _ _ inductionHypothesis =>
    cases quotable with
    | empty => simp at ahead
    | plain free _ =>
      obtain ⟨rfl, _⟩ := List.cons_prefix_cons.mp ahead
      simp at free
    | escape _ others =>
      obtain ⟨_, further⟩ := List.cons_prefix_cons.mp ahead
      exact inductionHypothesis others (List.cons_prefix_cons.mp further).2

/-- Something can stand behind the text that makes it a string literal. -/
def BeginsString (front : List Char) : Prop :=
  ∃ text, Member .string text ∧ front <+: text

/-- Behind a sound part a literal begins as literals go on there. -/
theorem beginsString_iff (sound : Quotable front) : BeginsString ('"' :: (front ++ rest)) ↔
    ∃ others, Quotable others ∧ rest <+: others ++ ['"'] := by
  constructor
  · rintro ⟨text, member, ahead⟩
    cases member with
    | string quotable => exact sound.cancel quotable (List.cons_prefix_cons.mp ahead).2
  · rintro ⟨others, quotable, ahead⟩
    refine ⟨_, .string (sound.append quotable), ?_⟩
    rw [List.cons_append, List.append_assoc]
    exact List.cons_prefix_cons.mpr ⟨rfl, (List.prefix_append_right_inj front).mpr ahead⟩

/-- What may stand in a string begins one behind a quote. -/
theorem Quotable.begins (sound : Quotable front) : BeginsString ('"' :: front) := by
  have begins : BeginsString ('"' :: (front ++ [])) :=
    (beginsString_iff sound).mpr ⟨[], .empty, List.nil_prefix⟩
  rwa [List.append_nil] at begins

/-- A backslash behind a sound part still waits for its letter. -/
theorem Quotable.begins_escape (sound : Quotable front) :
    BeginsString ('"' :: (front ++ ['\\'])) :=
  (beginsString_iff sound).mpr ⟨['\\', 'n'], .escape rfl .empty, by simp⟩

/-- No literal goes on over the end of a line. -/
theorem Quotable.not_begins_line {letter : Char} (sound : Quotable front)
    (feed : letter ∈ ['\n', '\r']) : ¬ BeginsString ('"' :: (front ++ [letter])) := by
  rw [beginsString_iff sound]
  rintro ⟨others, quotable, ahead⟩
  cases quotable with
  | empty => simp_all
  | plain free _ => simp_all
  | escape _ _ => simp_all

/-- No literal has another character than an escape letter behind a backslash. -/
theorem Quotable.not_begins_escape {letter : Char} (sound : Quotable front)
    (other : Text.isEscapeLetter letter = false) :
    ¬ BeginsString ('"' :: (front ++ ['\\', letter])) := by
  rw [beginsString_iff sound]
  rintro ⟨others, quotable, ahead⟩
  cases quotable with
  | empty => simp at ahead
  | plain free _ =>
    obtain ⟨rfl, _⟩ := List.cons_prefix_cons.mp ahead
    simp at free
  | escape isLetter _ => simp_all

/-! ## Backslashes in a row -/

/-- How many backslashes stand in a row at the end of a text. -/
def backslashes (front : List Char) : Nat :=
  (front.reverse.takeWhile (· = '\\')).length

/-- The text ends in a backslash that no other one escapes. -/
def Escaping (front : List Char) : Prop :=
  backslashes front % 2 = 1

/-- One more letter adds to the backslashes at the end, or ends them. -/
theorem backslashes_append_singleton (front : List Char) (letter : Char) :
    backslashes (front ++ [letter]) = if letter = '\\' then backslashes front + 1 else 0 := by
  unfold backslashes
  rw [List.reverse_append, List.reverse_singleton, List.singleton_append, List.takeWhile_cons]
  split <;> simp_all

/-- A text escapes behind one more letter, if that is a backslash which is not escaped. -/
theorem escaping_append_singleton (front : List Char) (letter : Char) :
    Escaping (front ++ [letter]) ↔ letter = '\\' ∧ ¬ Escaping front := by
  unfold Escaping
  rw [backslashes_append_singleton]
  split <;> simp_all; omega

/-- In a sound part every backslash has its letter, so none is left over at its end. -/
theorem Quotable.not_escaping (sound : Quotable front) {before : List Char}
    (settled : ¬ Escaping before) : ¬ Escaping (before ++ front) := by
  induction sound generalizing before with
  | empty => rwa [List.append_nil]
  | @plain single inside free _ inductionHypothesis =>
    have further : ¬ Escaping (before ++ [single]) := by
      rw [escaping_append_singleton]
      simp_all
    simpa using inductionHypothesis further
  | @escape letter inside _ _ inductionHypothesis =>
    have opened : Escaping (before ++ ['\\']) :=
      (escaping_append_singleton _ _).mpr ⟨rfl, settled⟩
    have further : ¬ Escaping (before ++ ['\\'] ++ [letter]) := by
      rw [escaping_append_singleton]
      simp [opened]
    simpa using inductionHypothesis further

end TokenKind

namespace Token

open TokenKind

variable {letters rest front behind : List Char} {offset place start : Nat}
  {tokens : List Token} {error : SyntaxError} {fault : SyntaxFault}

/-! ## Where scanning ends -/

/-- Tokens cover the text up to the place, and no token begins there. -/
def StuckAt (letters : List Char) (place : Nat) : Prop :=
  (∃ tokens, Cover letters 0 place tokens) ∧ ∃ error, StopsAt letters place error

/-- Reading stops inside the text. -/
theorem StopsAt.lt_length (stops : StopsAt letters place error) : place < letters.length := by
  obtain ⟨first, others, there, _⟩ := stops
  exact Token.lt_length there

/-- Scanning ends where it is stuck, with the error of this place. -/
theorem scan_stopped (there : letters.drop offset = rest) (before : offset ≤ place)
    (cover : Cover letters offset place tokens) (stops : StopsAt letters place error) :
    scan offset rest = .error error := by
  have inside := stops.lt_length
  obtain ⟨begins, others, atPlace, bright, free, _, same⟩ := stops
  induction offset, rest using scan.induct generalizing tokens with
  | case1 offset =>
    have ends := List.drop_eq_nil_iff.mp there
    omega
  | case2 offset first rest blank inductionHypothesis =>
    have other : offset ≠ place := by
      rintro rfl
      obtain ⟨rfl, _⟩ := List.cons.inj (there.symm.trans atPlace)
      rw [blank] at bright
      cases bright
    rw [scan_blank blank]
    exact inductionHypothesis (drop_tail there) (by omega) (cover.skipped there blank)
  | case3 offset first rest dark none =>
    rw [scan_stuck dark none, same]
    rcases Nat.eq_or_lt_of_le before with rfl | further
    · obtain ⟨rfl, rfl⟩ := List.cons.inj (there.symm.trans atPlace)
      rfl
    · obtain ⟨token, later, rfl, rfl, munched, _⟩ :=
        cover.uncons there (by simpa using dark) further
      cases none.symm.trans (munched.first? there)
  | case4 offset first rest dark kind lexeme read inductionHypothesis =>
    have other : offset ≠ place := by
      rintro rfl
      obtain ⟨member, ahead⟩ := lexeme?_member (first?_asked read).1
      rw [← there, atPlace] at ahead
      exact free kind lexeme member ahead
    obtain ⟨token, later, rfl, rfl, munched, further⟩ :=
      cover.uncons there (by simpa using dark) (by omega)
    obtain ⟨_, stop, onwards⟩ := munched.read there read
    rw [stop] at inductionHypothesis
    have within := (cover.inside token (by simp)).2
    rw [scan_token dark read, stop, inductionHypothesis onwards within further]
    rfl

/-- The error of a text in which scanning is stuck. -/
theorem StuckAt.fails {source : String} {first : Char} (stuck : StuckAt source.toList place)
    (there : source.toList.drop place = first :: rest) :
    ofText source = .error (faultAt place first rest) := by
  obtain ⟨⟨tokens, cover⟩, error, stops⟩ := stuck
  have failed : ofText source = .error error :=
    scan_stopped rfl (Nat.zero_le place) cover stops
  obtain ⟨begins, others, atPlace, _, _, _, rfl⟩ := stops
  obtain ⟨rfl, rfl⟩ := List.cons.inj (there.symm.trans atPlace)
  exact failed

/-- A text that does not lex is stuck at one of its places, and reports that. -/
theorem stuckAt_of_fails {source : String} (failed : ofText source = .error error) :
    ∃ place first rest, StuckAt source.toList place ∧
      source.toList.drop place = first :: rest ∧ error = faultAt place first rest := by
  obtain ⟨place, tokens, _, cover, stops⟩ := (scan_covers rfl).2 error failed
  obtain ⟨first, rest, there, _, _, _, same⟩ := id stops
  exact ⟨place, first, rest, ⟨⟨tokens, cover⟩, error, stops⟩, there, same⟩

/-- A literal at which scanning is stuck does not read. -/
theorem StuckAt.stringTail? (stuck : StuckAt letters place)
    (there : letters.drop place = '"' :: rest) : stringTail? rest = none := by
  obtain ⟨_, error, begins, others, atPlace, _, free, _⟩ := stuck
  obtain ⟨rfl, rfl⟩ := List.cons.inj (there.symm.trans atPlace)
  by_contra some
  obtain ⟨tail, read⟩ := Option.ne_none_iff_exists'.mp some
  have taken : TokenKind.string.lexeme? ('"' :: rest) = .some ('"' :: tail) := by
    simp [lexeme?, stringLexeme?, read]
  obtain ⟨member, ahead⟩ := lexeme?_member taken
  exact free _ _ member ahead

/-! ## What spoils a literal -/

/-- What spoils a literal between the part that has been read and the rest of the text: the
end of the text, the end of a line, or a backslash without an escape letter behind it. -/
inductive Spoils : SyntaxFault → List Char → List Char → Prop where
  | ends {front : List Char} : Quotable front → Spoils .unterminatedString front []
  | line {front behind : List Char} {letter : Char} :
      Quotable front → letter ∈ ['\n', '\r'] → Spoils .multilineString front (letter :: behind)
  | escape {front behind : List Char} :
      Quotable front → (∀ letter ∈ behind.head?, Text.isEscapeLetter letter = false) →
      Spoils .invalidEscape (front ++ ['\\']) behind

/-- What spoils a literal does so behind a sound part of it. -/
theorem Spoils.after {lead : List Char} (spoils : Spoils fault front behind)
    (sound : Quotable lead) : Spoils fault (lead ++ front) behind := by
  cases spoils with
  | ends quotable => exact .ends (sound.append quotable)
  | line quotable feed => exact .line (sound.append quotable) feed
  | escape quotable letter =>
    rw [← List.append_assoc]
    exact .escape (sound.append quotable) letter

/-- The second reading of a literal that does not read stops at what spoils it. -/
theorem stringFault_spoils (offset : Nat) (none : stringTail? rest = none) :
    ∃ fault front behind, rest = front ++ behind ∧ Spoils fault front behind ∧
      stringFault offset rest = ⟨fault, offset + front.length⟩ := by
  fun_induction stringFault offset rest with
  | case1 offset => exact ⟨_, [], [], rfl, .ends .empty, rfl⟩
  | case2 offset rest => cases none
  | case3 offset => exact ⟨_, ['\\'], [], rfl, .escape .empty (by simp), rfl⟩
  | case4 offset letter rest escape inductionHypothesis =>
    rw [TokenKind.stringTail?, if_pos escape] at none
    obtain ⟨fault, front, behind, rfl, spoils, same⟩ :=
      inductionHypothesis (Option.map_eq_none_iff.mp none)
    refine ⟨fault, '\\' :: letter :: front, behind, rfl, spoils.after (.escape escape .empty), ?_⟩
    rw [same, List.length_cons, List.length_cons]
    congr 1
    omega
  | case5 offset letter rest other =>
    exact ⟨_, ['\\'], letter :: rest, rfl, .escape .empty (by simpa using other), rfl⟩
  | case6 offset letter rest quote _ _ feed =>
    exact ⟨_, [], letter :: rest, rfl, .line .empty (by simpa using feed), rfl⟩
  | case7 offset letter rest quote noEnd noPair plain inductionHypothesis =>
    have escape : letter ≠ '\\' := by
      rintro rfl
      cases rest with
      | nil => exact noEnd rfl rfl
      | cons next others => exact noPair next others rfl rfl
    simp only [Bool.or_eq_true, decide_eq_true_eq, not_or] at plain
    have sound : Quotable [letter] :=
      .plain (by simpa using ⟨quote, escape, plain⟩) .empty
    have later : stringTail? rest = Option.none := by
      simpa [TokenKind.stringTail?, escape, plain] using none
    obtain ⟨fault, front, behind, rfl, spoils, same⟩ := inductionHypothesis later
    refine ⟨fault, letter :: front, behind, rfl, spoils.after sound, ?_⟩
    rw [same, List.length_cons]
    congr 1
    omega

/-! ## What the fault says of the text -/

/-- What has been read begins a literal. -/
theorem Spoils.begins (spoils : Spoils fault front behind) : BeginsString ('"' :: front) := by
  cases spoils with
  | ends sound => exact sound.begins
  | line sound _ => exact sound.begins
  | escape sound _ => exact sound.begins_escape

/-- With the character behind that, it begins none. -/
theorem Spoils.not_begins {letter : Char} {others : List Char}
    (spoils : Spoils fault front (letter :: others)) :
    ¬ BeginsString ('"' :: (front ++ [letter])) := by
  cases spoils with
  | line sound feed => exact sound.not_begins_line feed
  | escape sound other =>
    rw [List.append_assoc]
    exact sound.not_begins_escape (other letter rfl)

/-- The faults of string literals. -/
def stringFaults : List SyntaxFault :=
  [.invalidEscape, .multilineString, .unterminatedString]

/-- They are told apart by their messages. -/
theorem message_inj : ∀ one ∈ stringFaults, ∀ other ∈ stringFaults,
    one.message = other.message ↔ one = other := by
  decide +kernel

/-- What the reported message tells of the text: which of the three it is can be seen from
what stands around the place. -/
structure Explains (message : String) (front behind : List Char) : Prop where
  escape : message = "Invalid escape sequence" ↔ Escaping front
  line : message = "String literal cannot span multiple lines" ↔
    ¬ Escaping front ∧ ∃ letter ∈ behind.head?, letter ∈ ['\n', '\r']
  ends : message = "Unterminated string literal" ↔ ¬ Escaping front ∧ behind = []

/-- What a fault says of the text, its message says. -/
theorem explains_of_fault (among : fault ∈ stringFaults)
    (escape : fault = .invalidEscape ↔ Escaping front)
    (line : fault = .multilineString ↔
      ¬ Escaping front ∧ ∃ letter ∈ behind.head?, letter ∈ ['\n', '\r'])
    (ends : fault = .unterminatedString ↔ ¬ Escaping front ∧ behind = []) :
    Explains fault.message front behind :=
  ⟨(message_inj fault among .invalidEscape (by decide)).trans escape,
    (message_inj fault among .multilineString (by decide)).trans line,
    (message_inj fault among .unterminatedString (by decide)).trans ends⟩

/-- The message of a fault explains what spoils the literal. -/
theorem Spoils.explains (spoils : Spoils fault front behind) (before : List Char) :
    Explains fault.message (before ++ '"' :: front) behind := by
  have settled : ¬ Escaping (before ++ ['"']) := by
    rw [escaping_append_singleton]
    simp
  have sound {inside : List Char} (quotable : Quotable inside) :
      ¬ Escaping (before ++ '"' :: inside) := by
    simpa using quotable.not_escaping settled
  cases spoils with
  | ends quotable =>
    apply explains_of_fault <;> simp [stringFaults, sound quotable]
  | line quotable feed =>
    apply explains_of_fault <;> simp [stringFaults, sound quotable]
    simpa using feed
  | @escape inside _ quotable _ =>
    have waits : Escaping (before ++ '"' :: (inside ++ ['\\'])) := by
      have ends := (escaping_append_singleton (before ++ '"' :: inside) '\\').mpr
        ⟨rfl, sound quotable⟩
      simpa using ends
    apply explains_of_fault <;> simp [stringFaults, waits]

/-- The part between two others is the one that lies between their places. -/
theorem extract_middle (before inside behind : List Char) :
    (before ++ inside ++ behind).extract before.length (before ++ inside).length = inside := by
  simp [List.extract_eq_take_drop]

/-- A broken string literal is diagnosed at the character that breaks it. Where scanning is
stuck at a double quote, the error lies behind the quote and inside of the text. From the
quote up to there stands the beginning of some string literal, and the character at the
place, if there is one, makes it the beginning of none. The message says what is wrong
there: it complains about an escape sequence just when the character in front of the place
is a backslash that is not escaped itself, about several lines just when there is none such
and a line ends at the place, and about a missing end just when there is none such and the
text ends there. -/
theorem broken_string_diagnosed {source : String} {start : Nat}
    (stuck : StuckAt source.toList start) (quote : source.toList[start]? = some '"') :
    ∃ error, ofText source = .error error ∧
      start < error.offset ∧ error.offset ≤ source.length ∧
      BeginsString (source.toList.extract start error.offset) ∧
      (error.offset = source.length ∨
        ¬ BeginsString (source.toList.extract start (error.offset + 1))) ∧
      Explains error.message (source.toList.take error.offset)
        (source.toList.drop error.offset) := by
  obtain ⟨inside, same⟩ := List.getElem?_eq_some_iff.mp quote
  have there : source.toList.drop start = '"' :: source.toList.drop (start + 1) := by
    rw [List.drop_eq_getElem_cons inside, same]
  obtain ⟨fault, front, behind, rest, spoils, found⟩ :=
    stringFault_spoils (start + 1) (stuck.stringTail? there)
  -- From here on the text is what stands in front of the quote, the quote, the part of the
  -- literal that has been read, and the rest.
  obtain ⟨before, shape, length⟩ : ∃ before,
      source.toList = (before ++ '"' :: front) ++ behind ∧ before.length = start := by
    refine ⟨source.toList.take start, ?_, by rw [List.length_take]; omega⟩
    rw [List.append_assoc, List.cons_append, ← rest, ← there, List.take_append_drop]
  have place : start + 1 + front.length = (before ++ '"' :: front).length := by
    rw [List.length_append, List.length_cons]
    omega
  refine ⟨_, stuck.fails there, ?_⟩
  rw [faultAt, if_pos rfl, found]
  simp only
  rw [← String.length_toList, shape, place, List.take_left, List.drop_left]
  refine ⟨?_, ?_, ?_, ?_, spoils.explains before⟩
  · rw [← place]
    omega
  · simp
  · rw [← length, extract_middle]
    exact spoils.begins
  · cases behind with
    | nil => exact .inl (by simp)
    | cons letter others =>
      right
      have further : (before ++ '"' :: front) ++ letter :: others =
          (before ++ '"' :: (front ++ [letter])) ++ others := by
        simp
      have stop : (before ++ '"' :: front).length + 1 =
          (before ++ '"' :: (front ++ [letter])).length := by
        simp
        omega
      rw [further, stop, ← length, extract_middle]
      exact spoils.not_begins

/-- A call whose argument has a backslash before a letter that is no escape letter. -/
def misspelled : String :=
  "f(\"a\\q\")"

/-- Reading is stuck at the quote of the example. -/
theorem misspelled_stuck : StuckAt misspelled.toList 2 := by
  have name : (⟨.identifier, String.ofList ['f'], 0⟩ : Token).Munched misspelled.toList :=
    munched_of_first? rfl (show first? misspelled.toList = some (.identifier, ['f']) by decide)
  have bracket : (⟨.operator, String.ofList ['('], 1⟩ : Token).Munched misspelled.toList :=
    munched_of_first? rfl
      (show first? (misspelled.toList.drop 1) = some (.operator, ['(']) by decide)
  have free := first?_eq_none_iff.mp
    (show first? (misspelled.toList.drop 2) = none by decide)
  refine ⟨⟨_, .cons name (.cons bracket (.none le_rfl) ?_) ?_⟩, _, _, _, rfl, ?_, free, ?_, rfl⟩
  · decide
  · decide
  · decide
  · decide

/-- The letter is blamed, behind the backslash. -/
theorem misspelled_diagnosed : StuckAt misspelled.toList 2 ∧
    misspelled.toList[2]? = some '"' ∧ ofText misspelled = .error ⟨.invalidEscape, 5⟩ ∧
    ∃ error, ofText misspelled = .error error ∧ 2 < error.offset ∧
      error.offset ≤ misspelled.length ∧
      BeginsString (misspelled.toList.extract 2 error.offset) ∧
      (error.offset = misspelled.length ∨
        ¬ BeginsString (misspelled.toList.extract 2 (error.offset + 1))) ∧
      Explains error.message (misspelled.toList.take error.offset)
        (misspelled.toList.drop error.offset) :=
  ⟨misspelled_stuck, rfl, by cbv, broken_string_diagnosed misspelled_stuck rfl⟩

end Token

end Blockscript
