import Blockscript.Proofs.Typing.Decision

/-!
# Returns and recursive calls in the order of the text

A function that does not declare its result has it from its first return, and until its
whole body is checked it does not know it. What matters in the body for this are its returns
and its calls of the function itself, in the order of the text and whatever blocks they
stand in. They are the marks of the body.

Marks are judged from the first to the last: a return is taken note of or compared with the
first one, and a recursive call is refused, since no result is known for it.
-/

namespace Blockscript.Typing

/-- What matters in a body for the result of its function. -/
inductive Mark where
  /-- A call of the function itself, behind its arguments. -/
  | recursion
  /-- A return of a value of a type, behind the value. -/
  | returned (type : Ty)
deriving DecidableEq

/-! ## The marks of a body -/

section Trees

variable (name : String) (arity : Nat)

mutual

/-- The calls of the function of the given name and arity in an expression. -/
def exprMarks : Expr .checked → List Mark
  | .literal _ _ => []
  | .group _ inner => exprMarks inner
  | .binary _ _ left right => exprMarks left ++ exprMarks right
  | .access _ _ _ => []
  | .element _ _ _ offset => exprMarks offset
  | .call _ _ called arguments =>
    exprsMarks arguments ++ if called = name ∧ arguments.length = arity then [.recursion] else []
  | .list _ elements => exprsMarks elements

/-- The calls of the function in expressions. -/
def exprsMarks : List (Expr .checked) → List Mark
  | [] => []
  | first :: rest => exprMarks first ++ exprsMarks rest

end

/-- The calls of the function in an initial value. -/
def valueMarks : Option (Expr .checked) → List Mark
  | none => []
  | some value => exprMarks name arity value

mutual

/-- The marks of a statement. -/
def stmtMarks : Stmt .checked → List Mark
  | .expression inner => exprMarks name arity inner
  | .declaration _ _ _ value => valueMarks name arity value
  | .assignment receiver value => exprMarks name arity receiver ++ exprMarks name arity value
  | .conditional condition thenBlock elseBlock =>
    exprMarks name arity condition ++ (blockMarks thenBlock ++ blockMarks elseBlock)
  | .switch subject cases => exprMarks name arity subject ++ casesMarks cases
  | .loop condition body => exprMarks name arity condition ++ blockMarks body
  | .returning value => exprMarks name arity value ++ [.returned value.type]
  | .stray _ body => blockMarks body

/-- The marks of statements one behind the other. -/
def blockMarks : List (Stmt .checked) → List Mark
  | [] => []
  | first :: rest => stmtMarks first ++ blockMarks rest

/-- The marks of the cases of a switch. -/
def casesMarks : List (Case .checked) → List Mark
  | [] => []
  | .mk label body :: rest => valueMarks name arity label ++ (blockMarks body ++ casesMarks rest)

end

/-! ## Judging marks -/

/-- What becomes of the inferred result along some marks. -/
def judge : Option Ty → List Mark → Except TypeFault (Option Ty)
  | inferred, [] => .ok inferred
  | _, .recursion :: _ => .error (.resultUnknown name arity)
  | none, .returned type :: rest => judge (some type) rest
  | some first, .returned type :: rest =>
    match requireAssignable first type with
    | .ok () => judge (some first) rest
    | .error fault => .error fault

end Trees

variable {name : String} {arity : Nat} {inferred next : Option Ty} {front back marks : List Mark}
  {fault : TypeFault}

/-- Marks behind others are judged with what those have left. -/
theorem judge_append (inferred : Option Ty) (front back : List Mark) :
    judge name arity inferred (front ++ back) =
      match judge name arity inferred front with
      | .ok next => judge name arity next back
      | .error fault => .error fault := by
  fun_induction judge name arity inferred front with
  | case1 => rfl
  | case2 => rfl
  | case3 _ _ inductionHypothesis => exact inductionHypothesis
  | case4 first type rest fits inductionHypothesis =>
    rw [List.cons_append, judge, fits]
    exact inductionHypothesis
  | case5 first type rest fault misfit => rw [List.cons_append, judge, misfit]

/-- The returned types among some marks. -/
def returnedTypes (marks : List Mark) : List Ty :=
  marks.filterMap fun mark =>
    match mark with
    | .recursion => none
    | .returned type => some type

/-- The first of some returned types takes the others. -/
def Fitting : List Ty → Prop
  | [] => True
  | first :: later => ∀ type ∈ later, Assignable first type

/-- Marks are passed when there is no recursive call among them and every type that is returned
fits the first one. -/
theorem judge_ok_iff : judge name arity inferred marks = .ok next ↔
    .recursion ∉ marks ∧ Fitting (inferred.toList ++ returnedTypes marks) ∧
      next = (inferred.toList ++ returnedTypes marks).head? := by
  fun_induction judge name arity inferred marks with
  | case1 inferred =>
    cases inferred <;> simp [returnedTypes, Fitting, eq_comm]
  | case2 => simp
  | case3 type rest inductionHypothesis => simpa [returnedTypes] using inductionHypothesis
  | case4 first type rest fits inductionHypothesis =>
    have assignable := requireAssignable_iff.mp fits
    rw [inductionHypothesis]
    simp [returnedTypes, Fitting, assignable]
  | case5 first type rest fault misfit =>
    have apart : ¬ Assignable first type := by
      intro assignable
      rw [(@requireAssignable_iff first type ()).mpr assignable] at misfit
      cases misfit
    simp [returnedTypes, Fitting, apart]

/-- Marks are refused at the first one that does not follow those before it. -/
theorem judge_error_iff : judge name arity inferred marks = .error fault ↔
    ∃ earlier mark later next, marks = earlier ++ mark :: later ∧
      judge name arity inferred earlier = .ok next ∧
      judge name arity next [mark] = .error fault := by
  constructor
  · intro refused
    fun_induction judge name arity inferred marks with
    | case1 => cases refused
    | case2 inferred rest =>
      exact ⟨[], .recursion, rest, inferred, rfl, rfl, by rw [judge, refused]⟩
    | case3 type rest inductionHypothesis =>
      obtain ⟨earlier, mark, later, next, rfl, passed, here⟩ := inductionHypothesis refused
      exact ⟨.returned type :: earlier, mark, later, next, rfl, passed, here⟩
    | case4 first type rest fits inductionHypothesis =>
      obtain ⟨earlier, mark, later, next, rfl, passed, here⟩ := inductionHypothesis refused
      exact ⟨.returned type :: earlier, mark, later, next, rfl, by rw [judge, fits]; exact passed,
        here⟩
    | case5 first type rest found misfit =>
      exact ⟨[], .returned type, rest, some first, rfl, rfl, by rw [judge, misfit]; exact refused⟩
  · rintro ⟨earlier, mark, later, next, rfl, passed, here⟩
    rw [judge_append, passed]
    have split := @judge_append name arity next [mark] later
    rw [here] at split
    exact split

/-- A recursive call is refused whatever has been returned before. -/
theorem judge_unknown_iff :
    judge name arity none marks = .error (.resultUnknown name arity) ↔
      ∃ earlier later, marks = earlier ++ .recursion :: later ∧ .recursion ∉ earlier ∧
        Fitting (returnedTypes earlier) := by
  rw [judge_error_iff]
  constructor
  · rintro ⟨earlier, mark, later, next, rfl, passed, here⟩
    obtain ⟨free, fits, -⟩ := judge_ok_iff.mp passed
    cases mark with
    | recursion => exact ⟨earlier, later, rfl, free, fits⟩
    | returned type =>
      cases next with
      | none => simp [judge] at here
      | some first =>
        by_cases fitting : first.isAssignable type <;>
          simp [judge, requireAssignable, fitting] at here
  · rintro ⟨earlier, later, rfl, free, fits⟩
    exact ⟨earlier, .recursion, later, _, rfl, judge_ok_iff.mpr ⟨free, fits, rfl⟩, rfl⟩

/-- A return that does not fit the first one is refused, unless something before it is. -/
theorem judge_misfit_iff {type first : Ty} :
    judge name arity none marks = .error (.notAssignable type first) ↔
      ∃ earlier later, marks = earlier ++ .returned type :: later ∧ .recursion ∉ earlier ∧
        Fitting (returnedTypes earlier) ∧ (returnedTypes earlier).head? = some first ∧
        ¬ Assignable first type := by
  rw [judge_error_iff]
  constructor
  · rintro ⟨earlier, mark, later, next, rfl, passed, here⟩
    obtain ⟨free, fits, known⟩ := judge_ok_iff.mp passed
    cases mark with
    | recursion => simp [judge] at here
    | returned found =>
      cases next with
      | none => simp [judge] at here
      | some settled =>
        by_cases fitting : settled.isAssignable found
        · simp [judge, requireAssignable, fitting] at here
        · simp only [judge, requireAssignable, fitting] at here
          cases here
          exact ⟨earlier, later, rfl, free, fits, known.symm, fun assignable =>
            fitting (isAssignable_iff.mpr assignable)⟩
  · rintro ⟨earlier, later, rfl, free, fits, known, misfit⟩
    have unassignable : first.isAssignable type = false := by
      simpa [← isAssignable_iff] using misfit
    refine ⟨earlier, .returned type, later, some first, rfl, ?_, ?_⟩
    · exact judge_ok_iff.mpr ⟨free, fits, known.symm⟩
    · simp [judge, requireAssignable, unassignable]

end Blockscript.Typing
