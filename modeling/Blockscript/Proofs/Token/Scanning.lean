import Blockscript.Proofs.Token.Classes

/-!
# Scanning takes the longest match

The tokens of a text stand in it in order and apart from each other, each is the longest
member of any class at its place, and what no token covers is blank. There is one list of
tokens at most of which this holds, and it is the one that is read.

A text that has no such tokens has them up to a place where no class has a member. What
stands there is a quote or an underscore, since everything else begins a token or is blank.
-/

namespace Blockscript.Token

/-- The token lies over a place of the text. -/
def Spans (token : Token) (place : Nat) : Prop :=
  token.offset ≤ place ∧ place < token.stop

/-- The token is the longest match of any class where it stands in the text, and belongs
to its own class only. -/
structure Munched (letters : List Char) (token : Token) : Prop where
  written : token.text.toList <+: letters.drop token.offset
  own : ∀ kind, kind.Member token.text.toList ↔ kind = token.kind
  longest : ∀ kind text, TokenKind.Member kind text → text <+: letters.drop token.offset →
    text.length ≤ token.text.length

/-- The tokens cover a text from one place to another. -/
structure Cover (letters : List Char) (start stop : Nat) (tokens : List Token) : Prop where
  munched : ∀ token ∈ tokens, token.Munched letters
  inside : ∀ token ∈ tokens, start ≤ token.offset ∧ token.stop ≤ stop
  ordered : tokens.Pairwise fun earlier later =>
    earlier.offset < later.offset ∧ earlier.stop ≤ later.offset
  blank : ∀ place letter, start ≤ place → place < stop → letters[place]? = some letter →
    (∀ token ∈ tokens, ¬ token.Spans place) → Text.isBlank letter = true

variable {letters rest lexeme : List Char} {start stop offset : Nat} {tokens : List Token}
  {token : Token} {first : Char} {kind : TokenKind}

/-- The text of a token is a member of its class. -/
theorem Munched.member (munched : token.Munched letters) :
    token.kind.Member token.text.toList :=
  (munched.own token.kind).mpr rfl

/-- A token has characters. -/
theorem Munched.offset_lt_stop (munched : token.Munched letters) : token.offset < token.stop := by
  have positive : 0 < token.text.toList.length :=
    List.length_pos_iff.mpr munched.member.ne_nil
  rw [String.length_toList] at positive
  rw [stop]
  omega

/-- A token stops inside the text. -/
theorem Munched.stop_le (munched : token.Munched letters) : token.stop ≤ letters.length := by
  have positive := munched.offset_lt_stop
  have within := munched.written.length_le
  rw [String.length_toList, List.length_drop] at within
  rw [stop] at positive ⊢
  omega

/-- What is read at a place is munched there. -/
theorem munched_of_first? (there : letters.drop offset = rest)
    (read : TokenKind.first? rest = some (kind, lexeme)) :
    (⟨kind, String.ofList lexeme, offset⟩ : Token).Munched letters := by
  obtain ⟨taken, _⟩ := TokenKind.first?_asked read
  obtain ⟨member, front⟩ := TokenKind.lexeme?_member taken
  refine ⟨?_, ?_, ?_⟩
  · simpa [there] using front
  · intro other
    rw [String.toList_ofList]
    constructor
    · intro again
      exact again.unique member
    · rintro rfl
      exact member
  · intro other text again ahead
    rw [there] at ahead
    simpa using TokenKind.first?_longest read again ahead

/-- What is munched at a place is read there. -/
theorem Munched.first? (munched : token.Munched letters)
    (there : letters.drop token.offset = rest) :
    TokenKind.first? rest = some (token.kind, token.text.toList) := by
  have front := munched.written
  rw [there] at front
  cases read : TokenKind.first? rest with
  | none => exact absurd front (TokenKind.first?_eq_none_iff.mp read _ _ munched.member)
  | some found =>
    obtain ⟨kind, lexeme⟩ := found
    obtain ⟨taken, _⟩ := TokenKind.first?_asked read
    obtain ⟨member, ahead⟩ := TokenKind.lexeme?_member taken
    have below := TokenKind.first?_longest read munched.member front
    have above := munched.longest kind lexeme member (there ▸ ahead)
    have same : token.text.toList = lexeme := by
      refine (List.prefix_of_prefix_length_le front ahead below).eq_of_length ?_
      rw [String.length_toList] at below ⊢
      omega
    rw [← same] at member ⊢
    rw [(munched.own kind).mp member]

/-- What is read where a token is munched is the token, and the text goes on at its end. -/
theorem Munched.read (munched : token.Munched letters) (there : letters.drop token.offset = rest)
    (read : TokenKind.first? rest = some (kind, lexeme)) :
    ⟨kind, String.ofList lexeme, token.offset⟩ = token ∧
      token.offset + lexeme.length = token.stop ∧
      letters.drop token.stop = rest.drop lexeme.length := by
  obtain ⟨rfl, rfl⟩ := Prod.mk.inj (Option.some.inj (read.symm.trans (munched.first? there)))
  have stop : token.stop = token.offset + token.text.toList.length := by
    rw [Token.stop, String.length_toList]
  refine ⟨by rw [String.ofList_toList], stop.symm, ?_⟩
  rw [stop, ← List.drop_drop, there]

/-! ## Covers from what is read -/

/-- No tokens cover nothing. -/
theorem Cover.none (ends : stop ≤ start) : Cover letters start stop [] := by
  refine ⟨by simp, by simp, .nil, ?_⟩
  intro place letter lower upper
  omega

/-- A blank character needs no token. -/
theorem Cover.skip (there : letters.drop start = first :: rest)
    (blank : Text.isBlank first = true) (cover : Cover letters (start + 1) stop tokens) :
    Cover letters start stop tokens := by
  refine ⟨cover.munched, ?_, cover.ordered, ?_⟩
  · intro token member
    obtain ⟨lower, upper⟩ := cover.inside token member
    exact ⟨by omega, upper⟩
  · intro place letter lower upper stands free
    rcases Nat.eq_or_lt_of_le lower with rfl | later
    · have same : letters[start]? = some first := by
        rw [← List.head?_drop, there, List.head?_cons]
      cases same.symm.trans stands
      exact blank
    · exact cover.blank place letter later upper stands free

/-- What is read covers its own place. -/
theorem Cover.cons (munched : token.Munched letters)
    (cover : Cover letters token.stop stop tokens) (upper : token.stop ≤ stop) :
    Cover letters token.offset stop (token :: tokens) := by
  have positive := munched.offset_lt_stop
  refine ⟨?_, ?_, ?_, ?_⟩
  · exact List.forall_mem_cons.mpr ⟨munched, cover.munched⟩
  · refine List.forall_mem_cons.mpr ⟨⟨le_rfl, upper⟩, fun other member => ?_⟩
    obtain ⟨lower, within⟩ := cover.inside other member
    exact ⟨by omega, within⟩
  · refine List.pairwise_cons.mpr ⟨fun other member => ?_, cover.ordered⟩
    obtain ⟨lower, _⟩ := cover.inside other member
    exact ⟨by omega, lower⟩
  · intro place letter lower within stands free
    obtain ⟨here, others⟩ := List.forall_mem_cons.mp free
    have behind : token.stop ≤ place := by
      by_contra before
      exact here ⟨lower, by omega⟩
    exact cover.blank place letter behind within stands others

/-! ## What is read from covers -/

/-- There is something at a place only inside the text. -/
theorem lt_length (there : letters.drop start = first :: rest) : start < letters.length := by
  by_contra ends
  rw [List.drop_eq_nil_of_le (by omega)] at there
  cases there

/-- A token that begins a cover is what stands there. -/
theorem Munched.opens (munched : token.Munched letters)
    (there : letters.drop token.offset = first :: rest) : token.kind.opens first = true := by
  obtain ⟨begins, others, same⟩ := List.exists_cons_of_ne_nil munched.member.ne_nil
  have front := munched.written
  have member := munched.member
  rw [same] at front member
  rw [there] at front
  obtain ⟨rfl, _⟩ := List.cons_prefix_cons.mp front
  exact member.opens

/-- Tokens that cover from behind a blank cover from the blank on. -/
theorem Cover.skipped (there : letters.drop start = first :: rest)
    (blank : Text.isBlank first = true) (cover : Cover letters start stop tokens) :
    Cover letters (start + 1) stop tokens := by
  refine ⟨cover.munched, fun token member => ?_, cover.ordered, ?_⟩
  · obtain ⟨lower, upper⟩ := cover.inside token member
    have other : token.offset ≠ start := by
      rintro rfl
      have dark := TokenKind.opens_dark ((cover.munched token member).opens there)
      rw [dark] at blank
      cases blank
    exact ⟨by omega, upper⟩
  · intro place letter lower
    exact cover.blank place letter (by omega)

/-- What is not blank is covered, and the cover goes on behind its token. -/
theorem Cover.uncons (there : letters.drop start = first :: rest)
    (dark : Text.isBlank first = false) (upper : start < stop)
    (cover : Cover letters start stop tokens) :
    ∃ token others, tokens = token :: others ∧ token.offset = start ∧ token.Munched letters ∧
      Cover letters token.stop stop others := by
  have stands : letters[start]? = some first := by
    rw [← List.head?_drop, there, List.head?_cons]
  have covered : ∃ token ∈ tokens, token.Spans start := by
    by_contra free
    have blank := cover.blank start first le_rfl upper stands (by simpa using free)
    rw [dark] at blank
    cases blank
  obtain ⟨token, member, before, behind⟩ := covered
  cases tokens with
  | nil => cases member
  | cons head others =>
    obtain ⟨further, ordered⟩ := List.pairwise_cons.mp cover.ordered
    obtain ⟨lower, _⟩ := cover.inside head (by simp)
    have begins : head.offset = start := by
      rcases List.mem_cons.mp member with rfl | later
      · omega
      · have earlier := (further token later).1
        omega
    refine ⟨head, others, rfl, begins, cover.munched head (by simp), ?_⟩
    refine ⟨fun other inside => cover.munched other (by simp [inside]), ?_, ordered, ?_⟩
    · intro other inside
      exact ⟨(further other inside).2, (cover.inside other (by simp [inside])).2⟩
    · intro place letter after within letterThere free
      have positive := (cover.munched head (by simp)).offset_lt_stop
      refine cover.blank place letter (by omega) within letterThere ?_
      refine List.forall_mem_cons.mpr ⟨?_, free⟩
      rintro ⟨_, before⟩
      omega

/-! ## Whole texts -/

/-- Reading stops at a place of a text with an error: nothing blank stands there and no
member of any class. -/
def StopsAt (letters : List Char) (place : Nat) (error : SyntaxError) : Prop :=
  ∃ first rest, letters.drop place = first :: rest ∧ Text.isBlank first = false ∧
    (∀ kind text, TokenKind.Member kind text → ¬ text <+: first :: rest) ∧
    first ∈ TokenKind.stuck ∧ error = faultAt place first rest

/-- What stands behind a character is what stands at the next place. -/
theorem drop_tail (there : letters.drop start = first :: rest) :
    letters.drop (start + 1) = rest := by
  rw [← List.drop_drop, there, List.drop_one, List.tail_cons]

/-- A blank is passed. -/
theorem scan_blank (blank : Text.isBlank first = true) :
    scan offset (first :: rest) = scan (offset + 1) rest := by
  rw [scan, if_pos blank]

/-- Where no class has a member, scanning fails. -/
theorem scan_stuck (dark : ¬ Text.isBlank first = true)
    (none : TokenKind.first? (first :: rest) = none) :
    scan offset (first :: rest) = .error (faultAt offset first rest) := by
  rw [scan, if_neg dark]
  split
  · rfl
  · next some => cases none.symm.trans some

/-- Where a class has a member, it is a token, and scanning goes on behind it. -/
theorem scan_token (dark : ¬ Text.isBlank first = true)
    (read : TokenKind.first? (first :: rest) = some (kind, lexeme)) :
    scan offset (first :: rest) =
      (scan (offset + lexeme.length) ((first :: rest).drop lexeme.length)).map
        (⟨kind, String.ofList lexeme, offset⟩ :: ·) := by
  rw [scan, if_neg dark]
  split
  · next none => cases none.symm.trans read
  · next found =>
    cases found.symm.trans read
    rfl

/-- Reading covers a text to its end, or to the place that it stops at. -/
theorem scan_covers (there : letters.drop offset = rest) :
    (∀ tokens, scan offset rest = .ok tokens → Cover letters offset letters.length tokens) ∧
    ∀ error, scan offset rest = .error error → ∃ place tokens, offset ≤ place ∧
      Cover letters offset place tokens ∧ StopsAt letters place error := by
  induction offset, rest using scan.induct with
  | case1 offset =>
    rw [scan]
    refine ⟨?_, by simp⟩
    rintro _ ⟨⟩
    exact .none (List.drop_eq_nil_iff.mp there)
  | case2 offset first rest blank inductionHypothesis =>
    rw [scan_blank blank]
    obtain ⟨covers, stops⟩ := inductionHypothesis (drop_tail there)
    refine ⟨fun tokens read => (covers tokens read).skip there blank, fun error failed => ?_⟩
    obtain ⟨place, tokens, after, cover, stopsAt⟩ := stops error failed
    exact ⟨place, tokens, by omega, cover.skip there blank, stopsAt⟩
  | case3 offset first rest dark none =>
    rw [scan_stuck dark none]
    refine ⟨by simp, ?_⟩
    rintro _ ⟨⟩
    have stuck := TokenKind.first?_stuck (by simpa using dark) none
    exact ⟨offset, [], le_rfl, .none le_rfl, first, rest, there, by simpa using dark,
      TokenKind.first?_eq_none_iff.mp none, stuck, rfl⟩
  | case4 offset first rest dark kind lexeme read inductionHypothesis =>
    have munched := munched_of_first? there read
    have onwards : letters.drop (offset + lexeme.length) = (first :: rest).drop lexeme.length := by
      rw [← List.drop_drop, there]
    have stop : (⟨kind, String.ofList lexeme, offset⟩ : Token).stop = offset + lexeme.length := by
      simp [Token.stop]
    obtain ⟨covers, stops⟩ := inductionHypothesis onwards
    rw [scan_token dark read]
    rw [← stop] at covers stops ⊢
    cases later : scan _ ((first :: rest).drop lexeme.length) with
    | ok others =>
      refine ⟨?_, by simp [Except.map]⟩
      rintro _ ⟨⟩
      exact .cons munched (covers others later) munched.stop_le
    | error fault =>
      refine ⟨by simp [Except.map], ?_⟩
      rintro _ ⟨⟩
      obtain ⟨place, tokens, after, cover, stopsAt⟩ := stops fault later
      exact ⟨place, _ :: tokens, munched.offset_lt_stop.le.trans after,
        .cons munched cover after, stopsAt⟩

/-- A text is read as the tokens that cover it. -/
theorem Cover.scan (there : letters.drop offset = rest)
    (cover : Cover letters offset letters.length tokens) : scan offset rest = .ok tokens := by
  induction offset, rest using scan.induct generalizing tokens with
  | case1 offset =>
    rw [Token.scan]
    cases tokens with
    | nil => rfl
    | cons token others =>
      have positive := (cover.munched token (by simp)).offset_lt_stop
      have inside := cover.inside token (by simp)
      have ends := List.drop_eq_nil_iff.mp there
      omega
  | case2 offset first rest blank inductionHypothesis =>
    rw [scan_blank blank]
    exact inductionHypothesis (drop_tail there) (cover.skipped there blank)
  | case3 offset first rest dark none =>
    obtain ⟨token, others, rfl, rfl, munched, _⟩ :=
      cover.uncons there (by simpa using dark) (lt_length there)
    cases none.symm.trans (munched.first? there)
  | case4 offset first rest dark kind lexeme read inductionHypothesis =>
    obtain ⟨token, others, rfl, rfl, munched, further⟩ :=
      cover.uncons there (by simpa using dark) (lt_length there)
    obtain ⟨same, stop, onwards⟩ := munched.read there read
    rw [stop] at inductionHypothesis
    rw [scan_token dark read, stop, inductionHypothesis onwards further, same]
    rfl

/-- Lexing is taking the longest match throughout. The tokens of a text are the ones that
cover it, each the longest match of any class at its place and of one class only, with
nothing but blank characters between them. A text that has none is covered up to a place
where no class has a match, and there stands a quote or an underscore. -/
theorem longest_matches_cover (source : String) :
    (∀ tokens, ofText source = .ok tokens ↔
      Cover source.toList 0 source.toList.length tokens) ∧
    ∀ error, ofText source = .error error → ∃ place tokens,
      Cover source.toList 0 place tokens ∧ StopsAt source.toList place error := by
  obtain ⟨covers, stops⟩ := @scan_covers source.toList _ 0 rfl
  refine ⟨fun tokens => ⟨covers tokens, fun cover => cover.scan rfl⟩, fun error failed => ?_⟩
  obtain ⟨place, tokens, _, cover, stopsAt⟩ := stops error failed
  exact ⟨place, tokens, cover, stopsAt⟩

/-- The tokens of a comparison with a negative decimal are covered, up to the underscore
behind them. -/
theorem underscore_uncovered :
    ofText "a==-1.5 _" = .error ⟨.unexpectedCharacter '_', 8⟩ ∧
      ∃ place tokens, Cover "a==-1.5 _".toList 0 place tokens ∧
        StopsAt "a==-1.5 _".toList place ⟨.unexpectedCharacter '_', 8⟩ := by
  have failed : ofText "a==-1.5 _" = .error ⟨.unexpectedCharacter '_', 8⟩ := by cbv
  exact ⟨failed, (longest_matches_cover _).2 _ failed⟩

end Blockscript.Token
