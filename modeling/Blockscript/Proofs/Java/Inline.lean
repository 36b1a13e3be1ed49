import Blockscript.Proofs.Java.Layout
import Blockscript.Proofs.Java.Texts

/-!
# What is emitted within a line

Names, numbers and the words of the emitter have no letter that means something for the
layout. The letters of a literal have, but stand between its quotes with the ends of lines
escaped, and the braces of a list are closed behind its elements. So an expression stays in
its line and closes what it opens.
-/

namespace Blockscript.Java

open TokenKind (IsName)

/-! ## Words -/

/-- A text within a line that closes what it opens. -/
def Calm (text : String) : Prop :=
  ∀ stack, Leads text.toList stack stack

/-- A text does not begin with a blank or with a closing brace. -/
def Begins (text : String) : Prop :=
  ∃ first rest, text.toList = first :: rest ∧ first ≠ ' ' ∧ first ≠ '\x7d'

/-- What may stand anywhere within a line. -/
structure Inline (text : String) : Prop where
  calm : Calm text
  begins : Begins text

section Words

variable {text more : String}

/-- Two calm texts are calm together. -/
theorem Calm.append (front : Calm text) (back : Calm more) : Calm (text ++ more) := by
  intro stack
  rw [String.toList_append]
  exact (front stack).append (back stack)

/-- More text leaves the beginning as it is. -/
theorem Begins.append (begins : Begins text) (more : String) : Begins (text ++ more) := by
  obtain ⟨first, rest, same, noBlank, noBrace⟩ := begins
  exact ⟨first, rest ++ more.toList, by simp [same], noBlank, noBrace⟩

/-- A calm text may follow what stands anywhere within a line. -/
theorem Inline.append (front : Inline text) (back : Calm more) : Inline (text ++ more) :=
  ⟨front.calm.append back, front.begins.append more⟩

/-- A text without any sign is calm. -/
theorem calm_plain (plain : Plain text.toList) : Calm text :=
  plain.leads

/-- A word of the emitter has no signs in it. -/
theorem calm_word (plain : (text.toList.all fun letter => !signs.contains letter) = true) :
    Calm text :=
  calm_plain fun letter member => by simpa using List.all_eq_true.mp plain letter member

/-- A word of the emitter may stand anywhere unless a blank comes first. -/
theorem inline_word
    (plain : (text.toList.all fun letter => !signs.contains letter) = true)
    (solid : (text.toList.head?.any fun letter => letter != ' ') = true) : Inline text := by
  refine ⟨calm_word plain, ?_⟩
  cases letters : text.toList with
  | nil => simp [letters] at solid
  | cons first rest =>
    refine ⟨first, rest, letters, ?_, ?_⟩
    · simpa [letters] using solid
    · rintro rfl
      simp [letters, signs] at plain

/-- What is between braces may be anything calm. -/
theorem Calm.braced (inner : Calm text) : Calm ("\x7b" ++ text ++ "\x7d") := by
  intro stack
  rw [String.toList_append, String.toList_append]
  exact ((leads_opening stack).append (inner _)).append (leads_closing stack)

/-- A letter that continues a name is no sign. -/
theorem notMem_signs {letter : Char} (continues : TokenKind.continuesName letter = true) :
    letter ∉ signs := by
  intro sign
  have outside : ∀ sign ∈ signs, TokenKind.continuesName sign = false := by
    simp [signs, TokenKind.continuesName]
  rw [outside letter sign] at continues
  cases continues

/-- A letter that begins a name is no sign. -/
theorem startsName_plain {letter : Char} (starts : TokenKind.startsName letter = true) :
    letter ∉ signs := by
  intro sign
  have outside : ∀ sign ∈ signs, TokenKind.startsName sign = false := by
    simp [signs, TokenKind.startsName]
  rw [outside letter sign] at starts
  cases starts

/-- A name is inline. -/
theorem inline_name (isName : IsName text.toList) : Inline text := by
  obtain ⟨first, rest, same, starts, continues⟩ := isName
  have unmarked := startsName_unmarked starts
  refine ⟨calm_plain ?_, first, rest, same, ?_, ?_⟩
  · rw [same]
    intro letter member
    rcases List.mem_cons.mp member with rfl | later
    · exact startsName_plain starts
    · exact notMem_signs (continues letter later)
  · rintro rfl
    exact unmarked (by decide)
  · rintro rfl
    exact unmarked (by decide)

/-- A number may stand anywhere within a line. -/
theorem inline_numeral (numeral : Numeral text.toList) : Inline text := by
  obtain ⟨first, rest, same, begins⟩ := numeral.begins
  refine ⟨calm_plain fun letter member sign => ?_, first, rest, same, ?_, ?_⟩
  · have outside : ∀ sign ∈ signs, sign.isDigit = false ∧ sign ∉ ['.', 'E', '+', '-'] := by
      simp [signs]
    obtain ⟨noDigit, noMark⟩ := outside letter sign
    rcases numeral.inside letter member with digit | mark
    · rw [noDigit] at digit
      cases digit
    · exact noMark mark
  · rintro rfl
    revert begins
    decide
  · rintro rfl
    revert begins
    decide

/-- A quoted text may stand anywhere within a line, whatever it holds. -/
theorem inline_quoted {quote : Char} (isQuote : quote ∈ Text.quotes) (text : String) :
    Inline (quoted quote text) := by
  refine ⟨leads_quoted isQuote text, quote, _, by rw [quoted, String.toList_ofList], ?_⟩
  simp only [Text.quotes, List.mem_cons, List.not_mem_nil, or_false] at isQuote
  rcases isQuote with rfl | rfl <;> decide

/-- A literal may stand anywhere within a line. -/
theorem inline_literal (value : Literal) : Inline (wording value) := by
  cases value with
  | nil => exact inline_word rfl rfl
  | boolean truth =>
    cases truth with
    | true => exact inline_word rfl rfl
    | false => exact inline_word rfl rfl
  | integer number =>
    refine inline_numeral ?_
    rw [wording, String.toList_ofList]
    exact numeral_integerText number
  | decimal number =>
    refine inline_numeral ?_
    rw [wording, Decimal.text, String.toList_ofList]
    exact numeral_decimal number
  | character text => exact inline_quoted (by decide) text
  | string text => exact inline_quoted (by decide) text

/-- The name of a type may stand anywhere within a line. -/
theorem inline_typeName (type : Ty) : Inline (typeName type) := by
  induction type with
  | list element inductionHypothesis => exact inductionHypothesis.append (calm_word rfl)
  | _ => exact inline_word rfl rfl

end Words

/-! ## Expressions -/

section Expressions

variable {ν : Notes}

/-- The name of a function may stand anywhere within a line. -/
theorem inline_functionName {name : String} (isName : IsName name.toList) (arity : Nat) :
    Inline (functionName name arity) := by
  unfold functionName
  split
  · exact inline_word rfl rfl
  · exact inline_name isName

/-- The text of the expression, if it has one, may stand anywhere within a line. -/
def Inlined (tree : Expr ν) : Prop :=
  ∀ text, expression tree = .ok text → Inline text

/-- Further expressions are calm when each of them may stand within a line. -/
theorem calm_further {trees : List (Expr ν)} (each : ∀ tree ∈ trees, Inlined tree)
    {text : String} (written : furtherExpressions trees = .ok text) : Calm text := by
  induction trees generalizing text with
  | nil =>
    rw [furtherExpressions] at written
    cases written
    exact (calm_word rfl : Calm "")
  | cons first rest inductionHypothesis =>
    obtain ⟨firstText, firstWritten, restText, restWritten, rfl⟩ := further_written.mp written
    have later := inductionHypothesis (fun tree member => each tree (by simp [member])) restWritten
    have here := each first (by simp) firstText firstWritten
    exact ((calm_word rfl).append here.calm).append later

/-- Expressions with commas between them are calm when each of them may stand within a line. -/
theorem calm_expressions {trees : List (Expr ν)} (each : ∀ tree ∈ trees, Inlined tree)
    {text : String} (written : expressions trees = .ok text) : Calm text := by
  cases trees with
  | nil =>
    rw [expressions] at written
    cases written
    exact (calm_word rfl : Calm "")
  | cons first rest =>
    obtain ⟨firstText, firstWritten, restText, restWritten, rfl⟩ := expressions_written.mp written
    have later := calm_further (fun tree member => each tree (by simp [member])) restWritten
    exact (each first (by simp) firstText firstWritten).calm.append later

/-- Every operator is calm. -/
theorem calm_operator {operator : String} (known : operator ∈ Grammar.levels.flatten) :
    Calm operator := by
  have all : ∀ operator ∈ Grammar.levels.flatten,
      (operator.toList.all fun letter => !signs.contains letter) = true := by decide
  exact calm_word (all operator known)

/-- An expression stays within its line. -/
theorem inline_expression (tree : Expr ν) (written : tree.Every Grammar.Written) :
    Inlined tree := by
  induction tree using Expr.induction_parts with
  | step tree inductionHypothesis =>
    have parts : ∀ inner ∈ tree.parts, Inlined inner :=
      fun inner member => inductionHypothesis inner member (written.part member)
    have here := written.here
    intro text emitted
    cases tree with
    | literal type value =>
      rw [expression] at emitted
      obtain ⟨_, rfl⟩ := literal_written.mp emitted
      exact inline_literal value
    | group type inner =>
      obtain ⟨innerText, innerEmitted, rfl⟩ := group_written.mp emitted
      have inside := (parts inner (by simp [Expr.parts]) innerText innerEmitted).calm
      have opening : Inline "(" := inline_word rfl rfl
      exact (opening.append inside).append (calm_word rfl)
    | binary type operator left right =>
      obtain ⟨leftText, leftEmitted, rightText, rightEmitted, rfl⟩ := binary_written.mp emitted
      have before := parts left (by simp [Expr.parts]) leftText leftEmitted
      have behind := (parts right (by simp [Expr.parts]) rightText rightEmitted).calm
      split
      · have opening : Inline "Math.pow(" := inline_word rfl rfl
        exact (((opening.append before.calm).append (calm_word rfl)).append behind).append
          (calm_word rfl)
      · exact (((before.append (calm_word rfl)).append (calm_operator here.1)).append
          (calm_word rfl)).append behind
    | access type entry name =>
      rw [expression] at emitted
      cases emitted
      exact inline_name here
    | element type entry name offset =>
      obtain ⟨offsetText, offsetEmitted, rfl⟩ := element_written.mp emitted
      have inside := (parts offset (by simp [Expr.parts]) offsetText offsetEmitted).calm
      exact (((inline_name here).append (calm_word rfl)).append inside).append
        (calm_word rfl)
    | call type routine name arguments =>
      obtain ⟨argumentsText, argumentsEmitted, rfl⟩ := call_written.mp emitted
      exact (((inline_functionName here arguments.length).append (calm_word rfl)).append
        (calm_expressions parts argumentsEmitted)).append (calm_word rfl)
    | list type elements =>
      obtain ⟨elementsText, elementsEmitted, rfl⟩ := list_written.mp emitted
      exact ⟨(calm_expressions parts elementsEmitted).braced, '\x7b', _, by simp; rfl, by decide,
        by decide⟩

end Expressions

end Blockscript.Java
