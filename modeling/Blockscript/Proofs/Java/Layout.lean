import Blockscript.Proofs.Java.Literals

/-!
# The layout of a text in Java

How a Java text is laid out is told from the text alone. Literals are found by their quotes,
and what stands outside of them opens and closes braces. The label of a case opens a body,
which goes on until the next label or until a line begins with a closing brace. A line is
indented by what is open where it begins.

The lines are read one behind the other, from what is open before a line to what is open
behind it. That each of them fits where it stands is enough for the whole text.
-/

namespace Blockscript.Java

/-! ## Outside of literals -/

/-- Where in a text a letter stands: in the code, between the quotes of a literal, or there
behind a backslash. -/
inductive Mode where
  | code
  | literal (quote : Char)
  | escape (quote : Char)

namespace Mode

/-- Where the next letter stands. -/
def next : Mode → Char → Mode
  | code, letter => if isQuote letter then literal letter else code
  | literal quote, letter =>
    if letter = quote then code else if letter = '\\' then escape quote else literal quote
  | escape quote, _ => literal quote

/-- Where the letter behind some letters stands. -/
def behind (mode : Mode) (letters : List Char) : Mode :=
  letters.foldl next mode

/-- The letters that stand in the code. -/
def visible : Mode → List Char → List Char
  | _, [] => []
  | code, letter :: rest => letter :: visible (code.next letter) rest
  | literal quote, letter :: rest => visible ((literal quote).next letter) rest
  | escape quote, letter :: rest => visible ((escape quote).next letter) rest

end Mode

/-- No closing brace comes before its opening one, and all braces are closed. -/
structure Balanced (letters : List Char) : Prop where
  opened : ∀ front, front <+: letters → front.count '\x7d' ≤ front.count '\x7b'
  closed : letters.count '\x7d' = letters.count '\x7b'

/-! ## Lines and what they stand in -/

/-- What may be open: braces, or the body of a case. -/
inductive Enclosure where
  | braces
  | body
deriving DecidableEq

/-- What is open behind a letter of the code. A closing brace closes the last thing that has
been opened, and this has to be a brace. -/
def enclose? (stack : List Enclosure) : Char → Option (List Enclosure)
  | '\x7b' => some (.braces :: stack)
  | '\x7d' =>
    match stack with
    | .braces :: outer => some outer
    | _ => none
  | _ => some stack

/-- The letters of a line. -/
abbrev Line : Type :=
  List Char

namespace Line

/-- The number of blanks that a line begins with. -/
def indentation (line : Line) : Nat :=
  (line.takeWhile (· = ' ')).length

/-- A line behind the blanks that it begins with. -/
def content (line : Line) : List Char :=
  line.dropWhile (· = ' ')

/-- Whether a line begins with a closing brace. -/
def closes (line : Line) : Bool :=
  line.content.head? = some '\x7d'

/-- Whether a line is the label of a case. -/
def isLabel (line : Line) : Bool :=
  line.content.getLast? = some ':' &&
    ("case ".toList.isPrefixOf line.content || line.content = "default:".toList)

/-- What a line stands in, of what is open before it. A label stands in the switch and not in
the body of the case before it, and so does a closing brace. -/
def within (line : Line) (stack : List Enclosure) : List Enclosure :=
  if line.isLabel || line.closes then stack.dropWhile (· = .body) else stack

/-- What is open behind a line. -/
def leaves? (stack : List Enclosure) (line : Line) : Option (List Enclosure) := do
  let inside ← (Mode.code.visible line).foldlM enclose? (line.within stack)
  return if line.isLabel then .body :: inside else inside

end Line

/-- A text is laid out. Outside of literals its braces are balanced, and nothing is open at its
end. A line that is not blank begins with four blanks for every brace that is open, and four
for every body of a case that it stands in, but for four if it begins with a closing brace.
The line before the end of a body is a break. No literal goes over the end of a line. -/
structure LaidOut (text : List Char) : Prop where
  balanced : Balanced (Mode.code.visible text)
  ended : (text.splitOn '\n').foldlM Line.leaves? [] = some []
  indented : ∀ (front : List Line) (line : Line) (back : List Line),
    text.splitOn '\n' = front ++ line :: back → line.content ≠ [] → ∃ stack,
      front.foldlM Line.leaves? [] = some stack ∧
        line.indentation + (if line.closes then 4 else 0) =
          4 * stack.count .braces + 4 * (line.within stack).count .body
  broken : ∀ (front : List Line) (previous line : Line) (back : List Line),
    text.splitOn '\n' = front ++ previous :: line :: back → line.isLabel ∨ line.closes →
      ∀ stack, (front ++ [previous]).foldlM Line.leaves? [] = some (.body :: stack) →
        previous.content = "break;".toList
  whole : ∀ front mark back, text = front ++ mark :: back → mark ∈ ['\n', '\r'] →
    Mode.code.behind front = .code

/-! ## Laws of reading -/

section Reading

variable {letters more : List Char} {mode : Mode} {stack before after : List Enclosure}

/-- The mode behind two texts is the one behind the second, entered from behind the first. -/
theorem Mode.behind_append : mode.behind (letters ++ more) = (mode.behind letters).behind more :=
  List.foldl_append

/-- What is visible of two texts is what is visible of each, the second one read from behind the
first. -/
theorem Mode.visible_append :
    mode.visible (letters ++ more) =
      mode.visible letters ++ (mode.behind letters).visible more := by
  induction letters generalizing mode with
  | nil => rfl
  | cons letter letters inductionHypothesis =>
    cases mode with
    | code =>
      rw [List.cons_append, visible, visible, inductionHypothesis]
      rfl
    | literal quote =>
      rw [List.cons_append, visible, visible, inductionHypothesis]
      rfl
    | escape quote =>
      rw [List.cons_append, visible, visible, inductionHypothesis]
      rfl

/-- A letter that is no brace opens and closes nothing. -/
theorem enclose?_other {letter : Char} (noOpening : letter ≠ '\x7b') (noClosing : letter ≠ '\x7d') :
    enclose? stack letter = some stack := by
  unfold enclose?
  split
  · exact absurd rfl noOpening
  · exact absurd rfl noClosing
  · rfl

/-- Letters of one line that have whole literals only. Reading them leads from what is open
before them to what is open behind. -/
structure Leads (letters : List Char) (before after : List Enclosure) : Prop where
  straight : ∀ letter ∈ letters, letter ≠ '\n' ∧ letter ≠ '\r'
  whole : Mode.code.behind letters = .code
  nested : (Mode.code.visible letters).foldlM enclose? before = some after

/-- Letters lead on from where others lead. -/
theorem Leads.append (front : Leads letters before stack) (back : Leads more stack after) :
    Leads (letters ++ more) before after where
  straight := List.forall_mem_append.mpr ⟨front.straight, back.straight⟩
  whole := by rw [Mode.behind_append, front.whole, back.whole]
  nested := by
    rw [Mode.visible_append, front.whole, List.foldlM_append, front.nested]
    exact back.nested

/-- The letters that have a meaning for the layout. -/
def signs : List Char :=
  ['\x7b', '\x7d', '"', '\'', '\n', '\r']

/-- Letters without any such. -/
def Plain (letters : List Char) : Prop :=
  ∀ letter ∈ letters, letter ∉ signs

/-- Plain letters lead nowhere. -/
theorem Plain.leads (plain : Plain letters) (stack : List Enclosure) :
    Leads letters stack stack := by
  have code {letter : Char} (inside : letter ∈ letters) : Mode.code.next letter = .code := by
    have none := plain letter inside
    simp only [signs, List.mem_cons, not_or] at none
    simp [Mode.next, isQuote, none]
  induction letters with
  | nil => exact ⟨by simp, rfl, rfl⟩
  | cons letter letters inductionHypothesis =>
    have none := plain letter (by simp)
    simp only [signs, List.mem_cons, not_or] at none
    obtain ⟨straight, whole, nested⟩ := inductionHypothesis
      (fun other inside => plain other (by simp [inside])) fun inside => code (by simp [inside])
    refine ⟨?_, ?_, ?_⟩
    · intro other member
      rcases List.mem_cons.mp member with rfl | inside
      · exact ⟨none.2.2.2.2.1, none.2.2.2.2.2.1⟩
      · exact straight other inside
    · rw [Mode.behind, List.foldl_cons, code (by simp)]
      exact whole
    · rw [Mode.visible, code (by simp), List.foldlM_cons, enclose?_other none.1 none.2.1]
      exact nested

/-- An opening brace leads into it. -/
theorem leads_opening (stack : List Enclosure) : Leads ['\x7b'] stack (.braces :: stack) :=
  ⟨by simp, rfl, rfl⟩

/-- A closing brace leads out of what is open. -/
theorem leads_closing (stack : List Enclosure) : Leads ['\x7d'] (.braces :: stack) stack :=
  ⟨by simp, rfl, rfl⟩

/-- The letters between the quotes of a literal do not end it, and none is in the code. -/
theorem Mode.literal_encode {quote : Char} (quotes : isQuote quote = true) (letters : List Char) :
    (Mode.literal quote).behind (Text.encode quote letters) = .literal quote ∧
      (Mode.literal quote).visible (Text.encode quote letters) = [] := by
  have backslash : '\\' ≠ quote := by
    rintro rfl
    cases quotes
  induction letters with
  | nil => exact ⟨rfl, rfl⟩
  | cons letter letters inductionHypothesis =>
    cases escape : Text.escapeLetter? quote letter with
    | some escaped =>
      rw [Text.encode_escape escape]
      simpa [Mode.behind, Mode.visible, Mode.next, backslash] using inductionHypothesis
    | none =>
      obtain ⟨noQuote, noEscape⟩ := escapeLetter?_none escape
      rw [Text.encode_plain escape]
      simpa [Mode.behind, Mode.visible, Mode.next, noQuote, noEscape] using inductionHypothesis

/-- The ends of lines are escaped. -/
theorem encode_straight {quote : Char} (isQuote : quote ∈ Text.quotes) (letters : List Char) :
    ∀ letter ∈ Text.encode quote letters, letter ≠ '\n' ∧ letter ≠ '\r' := by
  induction letters with
  | nil => simp [Text.encode]
  | cons letter letters inductionHypothesis =>
    cases written : Text.escapeLetter? quote letter with
    | some escape =>
      have straight : escape ≠ '\n' ∧ escape ≠ '\r' := by
        have meant := Text.escapeLetter?_escaped isQuote written
        constructor
        · rintro rfl
          cases meant
        · rintro rfl
          cases meant
      rw [Text.encode_escape written]
      simpa [straight] using inductionHypothesis
    | none =>
      have plain := Text.escapeLetter?_plain written
      simp only [List.mem_cons, not_or] at plain
      rw [Text.encode_plain written]
      simpa [plain] using inductionHypothesis

/-- A quoted text leads nowhere, whatever it holds. -/
theorem leads_quoted {quote : Char} (isQuote : quote ∈ Text.quotes) (text : String)
    (stack : List Enclosure) : Leads (quoted quote text).toList stack stack := by
  have straight := encode_straight isQuote text.toList
  simp only [Text.quotes, List.mem_cons, List.not_mem_nil, or_false] at isQuote
  have mark : Java.isQuote quote = true ∧ quote ≠ '\n' ∧ quote ≠ '\r' := by
    rcases isQuote with rfl | rfl <;> decide
  obtain ⟨inside, hidden⟩ := Mode.literal_encode mark.1 text.toList
  have opens : Mode.code.next quote = .literal quote := if_pos mark.1
  have closes : (Mode.literal quote).next quote = .code := if_pos rfl
  rw [quoted, String.toList_ofList]
  refine ⟨?_, ?_, ?_⟩
  · simp only [List.mem_cons, List.mem_append, List.not_mem_nil, or_false]
    rintro letter (rfl | inside | rfl)
    · exact mark.2
    · exact straight letter inside
    · exact mark.2
  · rw [Mode.behind, List.foldl_cons, opens, ← Mode.behind, Mode.behind_append, inside]
    exact closes
  · rw [Mode.visible, opens, Mode.visible_append, hidden, inside]
    rcases isQuote with rfl | rfl <;> rfl

end Reading

/-! ## Line behind line -/

/-- A line fits behind the line before it, with what is open there. -/
structure Line.Fits (line : Line) (stack : List Enclosure) (previous : Line) : Prop where
  straight : '\r' ∉ line
  whole : Mode.code.behind line = .code
  indented : line.content ≠ [] →
    line.indentation + (if line.closes then 4 else 0) = 4 * (line.within stack).length
  broken : line.isLabel ∨ line.closes → stack.head? = some .body →
    previous.content = "break;".toList

/-- Lines that fit one behind the other, from what is open before them to what is open
behind. -/
inductive Laid : List Enclosure → Line → List Line → List Enclosure → Prop where
  | nil {stack : List Enclosure} {previous : Line} : Laid stack previous [] stack
  | cons {stack behind last : List Enclosure} {previous line : Line} {rest : List Line} :
    line.Fits stack previous → Line.leaves? stack line = some behind →
      Laid behind line rest last → Laid stack previous (line :: rest) last

section Lines

variable {letters more : List Char} {stack after : List Enclosure} {before middle last : Nat}
  {previous : Line} {lines : List Line}

/-- The braces of letters lead from a number of open ones to another. -/
structure Matched (letters : List Char) (before last : Nat) : Prop where
  opened : ∀ front, front <+: letters → front.count '\x7d' ≤ front.count '\x7b' + before
  closed : letters.count '\x7b' + before = letters.count '\x7d' + last

/-- Braces match on from where others match. -/
theorem Matched.append (front : Matched letters before middle) (back : Matched more middle last) :
    Matched (letters ++ more) before last where
  opened := by
    intro part within
    have total := front.closed
    rcases List.prefix_or_prefix_of_prefix within (List.prefix_append letters more) with
      inside | ⟨others, rfl⟩
    · exact front.opened part inside
    · have behind := back.opened others ((List.prefix_append_right_inj letters).mp within)
      rw [List.count_append, List.count_append]
      omega
  closed := by
    have total := front.closed
    have further := back.closed
    rw [List.count_append, List.count_append]
    omega

/-- Braces that are read one after another match in number. -/
theorem matched_of_nested (nested : letters.foldlM enclose? stack = some after) :
    Matched letters (stack.count .braces) (after.count .braces) := by
  induction letters generalizing stack with
  | nil =>
    cases nested
    exact ⟨by simp, by simp⟩
  | cons letter letters inductionHypothesis =>
    rw [List.foldlM_cons] at nested
    obtain ⟨inside, entered, further⟩ := Option.bind_eq_some_iff.mp nested
    have single : Matched [letter] (stack.count .braces) (inside.count .braces) := by
      unfold enclose? at entered
      split at entered
      · cases entered
        exact ⟨by simp [List.prefix_cons_iff], by simp; omega⟩
      · split at entered
        · cases entered
          exact ⟨by simp [List.prefix_cons_iff], by simp; omega⟩
        · cases entered
      · next noOpening noClosing =>
        cases entered
        simp only [imp_false] at noOpening noClosing
        exact ⟨by simp [List.prefix_cons_iff, noOpening, noClosing], by
          simp [noOpening, noClosing]⟩
    exact single.append (inductionHypothesis further)

/-- What a line stands within has as many braces as what is open before it. -/
theorem count_within (line : Line) (stack : List Enclosure) :
    (line.within stack).count .braces = stack.count .braces := by
  rw [Line.within]
  split
  · induction stack with
    | nil => rfl
    | cons first rest inductionHypothesis =>
      cases first with
      | braces => rfl
      | body => simpa using inductionHypothesis
  · rfl

/-- What is open are braces and bodies of cases, and nothing else. -/
theorem length_eq_counts (stack : List Enclosure) :
    stack.length = stack.count .braces + stack.count .body := by
  induction stack with
  | nil => rfl
  | cons first rest inductionHypothesis =>
    cases first with
    | braces => simp [inductionHypothesis]; omega
    | body => simp [inductionHypothesis]; omega

/-- The code of a line leads from the braces that are open before it to those behind it. -/
theorem Line.matched {line : Line} (leaves : Line.leaves? stack line = some after) :
    Matched (Mode.code.visible line) (stack.count .braces) (after.count .braces) := by
  obtain ⟨inside, nested, same⟩ := Option.bind_eq_some_iff.mp leaves
  have matched := matched_of_nested nested
  rw [count_within] at matched
  have behind : after.count .braces = inside.count .braces := by
    cases same
    split
    · simp
    · rfl
  rwa [behind]

/-- The braces match in number over lines that fit. -/
theorem Laid.matched (laid : Laid stack previous lines after) :
    Matched (Mode.code.visible (['\n'].intercalate lines)) (stack.count .braces)
      (after.count .braces) := by
  induction laid with
  | nil => exact ⟨by simp [Mode.visible], rfl⟩
  | @cons stack behind last previous line rest fits leaves further inductionHypothesis =>
    have here := Line.matched leaves
    cases rest with
    | nil =>
      cases further
      simpa [List.intercalate] using here
    | cons next rest =>
      have turn : Matched ['\n'] (behind.count .braces) (behind.count .braces) :=
        ⟨by simp [List.prefix_cons_iff], by simp⟩
      rw [List.intercalate_cons_cons, Mode.visible_append, Mode.visible_append, fits.whole,
        Mode.behind_append, fits.whole]
      exact (here.append turn).append inductionHypothesis

/-- What is open behind lines that fit is what they leave. -/
theorem Laid.leaves (laid : Laid stack previous lines after) :
    lines.foldlM Line.leaves? stack = some after := by
  induction laid with
  | nil => rfl
  | cons _ leaves _ inductionHypothesis =>
    rw [List.foldlM_cons, leaves]
    exact inductionHypothesis

/-- Every line fits behind what comes before it. -/
theorem Laid.fits {front back : List Line} {line : Line}
    (laid : Laid stack previous (front ++ line :: back) after) :
    ∃ middle, front.foldlM Line.leaves? stack = some middle ∧
      line.Fits middle (front.getLast?.getD previous) := by
  induction front generalizing stack previous with
  | nil =>
    cases laid with
    | cons fits leaves further => exact ⟨stack, rfl, fits⟩
  | cons first front inductionHypothesis =>
    cases laid with
    | cons fits leaves further =>
      obtain ⟨middle, reached, fitting⟩ := inductionHypothesis further
      refine ⟨middle, ?_, by simpa [List.getLast?_cons] using fitting⟩
      rw [List.foldlM_cons, leaves]
      exact reached

end Lines

end Blockscript.Java
