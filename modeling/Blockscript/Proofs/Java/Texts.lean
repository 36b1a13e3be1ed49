import Blockscript.Java
import Blockscript.Proofs.Decimal.Notation
import Blockscript.Proofs.Typing.Judgement
import Blockscript.Proofs.Typing.Occurrences

/-!
# Texts of expressions

An expression has a Java text unless an integer with too many digits stands in it. The text
is put together from those of its parts, so what is shown of a text is shown for each kind of
expression from its parts. Checking leaves integers of 32 bits only, and these always have a
text.
-/

namespace Blockscript.Java

variable {ν : Notes} {text : String}

/-- A text that is put together is there when its part is and what follows is. -/
theorem bind_written {α β : Type} {part : Except Fault α} {next : α → Except Fault β} {result : β} :
    (part >>= next) = .ok result ↔ ∃ value, part = .ok value ∧ next value = .ok result := by
  cases part with
  | ok value => simp [bind, Except.bind]
  | error fault => simp [bind, Except.bind]

/-- A text that is there is the one that is given. -/
theorem pure_written {α : Type} {value result : α} :
    (pure value : Except Fault α) = .ok result ↔ value = result := by
  simp [pure, Except.pure]

/-! ## Literals -/

/-- What a literal is called in Java, however many digits it has. -/
def wording : Literal → String
  | .nil => "null"
  | .boolean truth => if truth then "true" else "false"
  | .integer number => String.ofList (integerText number)
  | .decimal number => number.text
  | .character text => quoted '\'' text
  | .string text => quoted '"' text

/-- A literal that is no integer with too many digits. -/
def Writable (value : Literal) : Prop :=
  ∀ number, value = .integer number → digitCount number.natAbs ≤ digitLimit

/-- A literal is written as it is called, if it can be. -/
theorem literal_written {value : Literal} :
    literal value = .ok text ↔ Writable value ∧ wording value = text := by
  cases value with
  | integer number =>
    by_cases short : digitCount number.natAbs ≤ digitLimit
    · simp [literal, integer, integerText?, Writable, wording, short]
    · simp [literal, integer, integerText?, Writable, short]
  | _ => simp [literal, Writable, wording]

/-! ## Expressions -/

/-- Brackets are written around what is in them. -/
theorem group_written {type : ν.type} {inner : Expr ν} :
    expression (.group type inner) = .ok text ↔
      ∃ innerText, expression inner = .ok innerText ∧ "(" ++ innerText ++ ")" = text := by
  simp only [expression, bind_written, pure_written]

/-- An operator is written between its operands, and a power as a call. -/
theorem binary_written {type : ν.type} {operator : String} {left right : Expr ν} :
    expression (.binary type operator left right) = .ok text ↔
      ∃ leftText, expression left = .ok leftText ∧ ∃ rightText, expression right = .ok rightText ∧
        (if operator = "^" then "Math.pow(" ++ leftText ++ ", " ++ rightText ++ ")"
          else leftText ++ " " ++ operator ++ " " ++ rightText) = text := by
  simp only [expression, bind_written]
  split <;> simp only [pure_written]

/-- An offset is written in brackets behind the name. -/
theorem element_written {type : ν.type} {entry : ν.entry} {name : String} {offset : Expr ν} :
    expression (.element type entry name offset) = .ok text ↔
      ∃ offsetText, expression offset = .ok offsetText ∧
        name ++ "[" ++ offsetText ++ "]" = text := by
  simp only [expression, bind_written, pure_written]

/-- Arguments are written in brackets behind the name. -/
theorem call_written {type : ν.type} {routine : ν.routine} {name : String}
    {arguments : List (Expr ν)} :
    expression (.call type routine name arguments) = .ok text ↔
      ∃ argumentsText, expressions arguments = .ok argumentsText ∧
        functionName name arguments.length ++ "(" ++ argumentsText ++ ")" = text := by
  simp only [expression, bind_written, pure_written]

/-- Elements are written in braces. -/
theorem list_written {type : ν.type} {elements : List (Expr ν)} :
    expression (.list type elements) = .ok text ↔
      ∃ elementsText, expressions elements = .ok elementsText ∧
        "\x7b" ++ elementsText ++ "\x7d" = text := by
  simp only [expression, bind_written, pure_written]

/-- Expressions are written behind the first of them. -/
theorem expressions_written {first : Expr ν} {rest : List (Expr ν)} :
    expressions (first :: rest) = .ok text ↔
      ∃ firstText, expression first = .ok firstText ∧
        ∃ restText, furtherExpressions rest = .ok restText ∧ firstText ++ restText = text := by
  simp only [expressions, bind_written, pure_written]

/-- Further expressions are written behind a comma each. -/
theorem further_written {first : Expr ν} {rest : List (Expr ν)} :
    furtherExpressions (first :: rest) = .ok text ↔
      ∃ firstText, expression first = .ok firstText ∧
        ∃ restText, furtherExpressions rest = .ok restText ∧
          ", " ++ firstText ++ restText = text := by
  simp only [furtherExpressions, bind_written, pure_written]

/-- An expression whose literal, if it is one, can be written. -/
def Legible (tree : Expr ν) : Prop :=
  ∀ type value, tree = .literal type value → Writable value

/-- Expressions are written if each of them is. -/
theorem exists_expressions {trees : List (Expr ν)}
    (each : ∀ tree ∈ trees, ∃ text, expression tree = .ok text) :
    (∃ text, furtherExpressions trees = .ok text) ∧ ∃ text, expressions trees = .ok text := by
  induction trees with
  | nil => exact ⟨⟨"", by rw [furtherExpressions]⟩, ⟨"", by rw [expressions]⟩⟩
  | cons first rest inductionHypothesis =>
    obtain ⟨⟨firstText, firstWritten⟩, others⟩ := List.forall_mem_cons.mp each
    obtain ⟨⟨restText, restWritten⟩, _⟩ := inductionHypothesis others
    exact ⟨⟨_, further_written.mpr ⟨firstText, firstWritten, restText, restWritten, rfl⟩⟩,
      ⟨_, expressions_written.mpr ⟨firstText, firstWritten, restText, restWritten, rfl⟩⟩⟩

/-- An expression has a text when all literals in it have. -/
theorem exists_expression (tree : Expr ν) (legible : tree.Every Legible) :
    ∃ text, expression tree = .ok text := by
  induction tree using Expr.induction_parts with
  | step tree inductionHypothesis =>
    have parts : ∀ inner ∈ tree.parts, ∃ text, expression inner = .ok text :=
      fun inner member => inductionHypothesis inner member (legible.part member)
    cases tree with
    | literal type value => exact ⟨_, literal_written.mpr ⟨legible.here type value rfl, rfl⟩⟩
    | group type inner =>
      obtain ⟨innerText, written⟩ := parts inner (by simp [Expr.parts])
      exact ⟨_, group_written.mpr ⟨innerText, written, rfl⟩⟩
    | binary type operator left right =>
      obtain ⟨leftText, leftWritten⟩ := parts left (by simp [Expr.parts])
      obtain ⟨rightText, rightWritten⟩ := parts right (by simp [Expr.parts])
      exact ⟨_, binary_written.mpr ⟨leftText, leftWritten, rightText, rightWritten, rfl⟩⟩
    | access type entry name => exact ⟨name, by rw [expression]⟩
    | element type entry name offset =>
      obtain ⟨offsetText, written⟩ := parts offset (by simp [Expr.parts])
      exact ⟨_, element_written.mpr ⟨offsetText, written, rfl⟩⟩
    | call type routine name arguments =>
      obtain ⟨argumentsText, written⟩ := (exists_expressions parts).2
      exact ⟨_, call_written.mpr ⟨argumentsText, written, rfl⟩⟩
    | list type elements =>
      obtain ⟨elementsText, written⟩ := (exists_expressions parts).2
      exact ⟨_, list_written.mpr ⟨elementsText, written, rfl⟩⟩

/-! ## Typed expressions -/

/-- An integer of 32 bits has few digits. -/
theorem writable_of_fits {number : Int} (fits : Literal.fitsInteger number = true) :
    digitCount number.natAbs ≤ digitLimit := by
  have bounds : Literal.leastInteger ≤ number ∧ number ≤ Literal.greatestInteger := by
    simpa [Literal.fitsInteger] using fits
  have small : number.natAbs ≤ tenTo 10 := by
    simp only [Literal.leastInteger, Literal.greatestInteger] at bounds
    have power : tenTo 10 = 10000000000 := by decide
    omega
  exact (digitCount_le_succ small).trans (by decide)

/-- A literal that has a type can be written. -/
theorem writable_of_typed {value : Literal} {type : Ty}
    (typed : Typing.literalType value = .ok type) : Writable value := by
  rintro number rfl
  rw [Typing.literalType] at typed
  split at typed
  · next fits => exact writable_of_fits fits
  · cases typed

/-- All literals of a typed expression can be written. -/
theorem typed_legible {seen : Scopes → Expr .checked → Prop} {scopes : Scopes}
    {tree : Expr .checked} (typed : ExprTyped seen scopes tree) : tree.Every Legible := by
  induction typed with
  | literal typed =>
    refine Expr.every_literal.mpr ?_
    rintro _ _ ⟨⟩
    exact writable_of_typed typed
  | group _ inductionHypothesis =>
    exact Expr.every_group.mpr ⟨by rintro _ _ ⟨⟩, inductionHypothesis⟩
  | binary _ _ _ leftHypothesis rightHypothesis =>
    exact Expr.every_binary.mpr ⟨by rintro _ _ ⟨⟩, leftHypothesis, rightHypothesis⟩
  | access _ _ => exact Expr.every_access.mpr (by rintro _ _ ⟨⟩)
  | element _ _ _ _ _ inductionHypothesis =>
    exact Expr.every_element.mpr ⟨by rintro _ _ ⟨⟩, inductionHypothesis⟩
  | call _ _ _ _ _ inductionHypothesis =>
    exact Expr.every_call.mpr ⟨by rintro _ _ ⟨⟩, inductionHypothesis⟩
  | list _ _ inductionHypothesis =>
    exact Expr.every_list.mpr ⟨by rintro _ _ ⟨⟩, inductionHypothesis⟩

end Blockscript.Java
