import Blockscript.CommandLine
import Blockscript.Proofs.Running.Meeting
import Blockscript.Proofs.Scopes.Operations
import Mathlib

/-!
# Assignments and what is read behind them

A name that is assigned to holds the value from then on. An assignment to an element writes
into a list, and this list is fixed before the offset is evaluated: it is the one that the
name held behind the evaluation of the value. The offset may be a call that gives the name
another list. What has been written is then found in the old list, and in every variable
that still holds that one, but not under the name that was assigned to.

So an element that is read behind an assignment to it is the value that was assigned just
when the name still held the same list behind the offset, or its new list has that value
there anyway.
-/

namespace Blockscript

/-! ## Changed variables and changed lists -/

namespace Environment

variable {ν ι : Type}

/-- Behind an assignment a scope finds what it found before, with the new value. -/
theorem findVariable_setVariable (scope : Scope ν ι) (name : String) (value : ν) :
    (scope.setVariable name value).findVariable name =
      (scope.findVariable name).map fun entry => { entry with value := value } := by
  unfold Scope.setVariable Scope.findVariable
  induction scope.entries with
  | nil => rfl
  | cons entry entries inductionHypothesis =>
    by_cases same : entry.name = name
    · simp [same]
    · simp [same, inductionHypothesis]

/-- A name is found where it was, with its new value if this is the scope that was changed. -/
theorem search_setVariable (environment : Environment ν ι) (name : String) (value : ν)
    (place index : Nat) :
    (⟨environment.scopes.modify place (·.setVariable name value)⟩ : Environment ν ι).search
        (·.findVariable name) index =
      (environment.search (·.findVariable name) index).map fun found =>
        (found.1, if found.1 = place then { found.2 with value := value } else found.2) := by
  induction index using Nat.strongRecOn with
  | ind index inductionHypothesis =>
    rw [search, search]
    simp only [Array.getElem?_modify]
    cases there : environment.scopes[index]? with
    | none => simp
    | some scope =>
      -- The parent of a scope stays what it is, so the search goes on alike.
      have onwards : ∀ parent : Nat,
          (if parent < index then
            (⟨environment.scopes.modify place (·.setVariable name value)⟩ :
              Environment ν ι).search (·.findVariable name) parent
          else none) =
          (if parent < index then environment.search (·.findVariable name) parent
            else none).map fun found =>
            (found.1, if found.1 = place then { found.2 with value := value } else found.2) := by
        intro parent
        split
        · next lower => exact inductionHypothesis parent lower
        · rfl
      by_cases here : place = index
      · subst here
        simp only [if_true, Option.map_some, findVariable_setVariable]
        cases scope.findVariable name with
        | some entry => simp
        | none =>
          simp only [Option.map_none, Scope.setVariable]
          cases scope.parent with
          | none => rfl
          | some parent => exact onwards parent
      · simp only [here, if_false]
        cases scope.findVariable name with
        | some entry => simp [Ne.symm here]
        | none =>
          cases scope.parent with
          | none => rfl
          | some parent => exact onwards parent

/-- A name that is assigned to means the same variable with the new value. -/
theorem lookupVariable_setVariable {environment changed : Environment ν ι} {name : String}
    {value : ν} (assigned : environment.setVariable name value = .ok changed) :
    ∃ place entry, environment.lookupVariable name = .ok (place, entry) ∧
      changed.lookupVariable name = .ok (place, { entry with value := value }) := by
  obtain ⟨place, entry, found, rfl⟩ := setVariable_ok_iff.mp assigned
  refine ⟨place, entry, found, ?_⟩
  have current : (⟨environment.scopes.modify place (·.setVariable name value)⟩ :
      Environment ν ι).current = environment.current := by
    simp [Environment.current]
  rw [lookupVariable_ok_iff] at found ⊢
  rw [current, search_setVariable, found]
  simp

end Environment

/-- The elements of a list behind a replacement. -/
theorem Store.elements_replace (store : Store) (handle index other : Nat) (value : Value) :
    (store.replace handle index value).elements other =
      if other = handle then (store.elements handle).set index value else store.elements other := by
  unfold Store.replace Store.elements
  rw [Array.getElem?_modify]
  split
  · next same =>
    subst same
    cases store.lists[handle]? <;> simp
  · next apart => rw [if_neg (Ne.symm apart)]

namespace Running

variable {ν : Notes} {budget : Nat} {name : String} {before machine final after : Machine ν}
  {value held : Value} {outcome : Outcome}

/-! ## Parts that give a value -/

/-- Two actions give a value together when the first one gives one to the other. -/
theorem run_bind_ok {σ α β : Type} {action : ExceptT Stop (StateM σ) α}
    {next : α → ExceptT Stop (StateM σ) β} {start last : σ} {result : β} :
    (action >>= next).run start = (.ok result, last) ↔
      ∃ first middle, action.run start = (.ok first, middle) ∧
        (next first).run middle = (.ok result, last) := by
  rw [run_bind]
  cases action.run start with
  | mk ending middle =>
    cases ending with
    | error stop =>
      constructor
      · rintro ⟨⟩
      · rintro ⟨_, _, ⟨⟩, _⟩
    | ok first =>
      constructor
      · exact fun given => ⟨first, middle, rfl, given⟩
      · rintro ⟨_, _, ⟨⟩, given⟩
        exact given

/-- An action that gives a value gives no other, and leaves the state. -/
theorem run_pure_ok {σ α : Type} {start last : σ} {given result : α} :
    (pure given : ExceptT Stop (StateM σ) α).run start = (.ok result, last) ↔
      given = result ∧ start = last := by
  change (Except.ok given, start) = (Except.ok result, last) ↔ _
  simp

/-- An action that passes an outcome on gives what the outcome gives, and leaves the state. -/
theorem run_outcome_ok {α : Type} {result : Except RunFault α} {given : α} :
    (Run.outcome result).run machine = (.ok given, final) ↔
      result = .ok given ∧ machine = final := by
  cases result with
  | ok found => exact run_pure_ok.trans (by simp)
  | error fault =>
    change ((Except.error (Stop.fault fault) : Except Stop α), machine) = (.ok given, final) ↔ _
    simp

/-- A lookup gives what is found, and leaves the state. -/
theorem run_lookup_ok {α : Type} {find : Environment Value (Body ν) → Except ScopeFault α}
    {found : α} :
    (Run.lookup find).run machine = (.ok found, final) ↔
      find machine.environment = .ok found ∧ machine = final := by
  rw [run_lookup]
  cases find machine.environment with
  | error fault =>
    constructor
    · rintro ⟨⟩
    · rintro ⟨⟨⟩, _⟩
  | ok given =>
    constructor
    · rintro ⟨⟩
      exact ⟨rfl, rfl⟩
    · rintro ⟨⟨⟩, rfl⟩
      rfl

/-- A variable is given when its name is found. -/
theorem run_variableOf_ok {entry : Variable Value} :
    (variableOf name).run machine = (.ok entry, final) ↔
      (∃ place, machine.environment.lookupVariable name = .ok (place, entry)) ∧
        machine = final := by
  simp only [variableOf, run_bind_ok, run_lookup_ok, run_pure_ok]
  constructor
  · rintro ⟨⟨place, entry⟩, _, ⟨found, rfl⟩, rfl, rfl⟩
    exact ⟨⟨place, found⟩, rfl⟩
  · rintro ⟨⟨place, found⟩, rfl⟩
    exact ⟨(place, entry), machine, ⟨found, rfl⟩, rfl, rfl⟩

/-- A variable is given for assignment when its name is found and it is mutable. -/
theorem run_mutableOf_ok {entry : Variable Value} :
    (mutableOf name).run machine = (.ok entry, final) ↔
      (∃ place, machine.environment.lookupVariable name = .ok (place, entry)) ∧
        entry.mutable = true ∧ machine = final := by
  simp only [mutableOf, run_bind_ok, run_variableOf_ok]
  constructor
  · rintro ⟨found, _, ⟨place, rfl⟩, given⟩
    split at given
    · next allowed =>
      obtain ⟨rfl, rfl⟩ := run_pure_ok.mp given
      exact ⟨place, allowed, rfl⟩
    · cases given
  · rintro ⟨place, allowed, rfl⟩
    exact ⟨entry, machine, ⟨place, rfl⟩, by rw [if_pos allowed]; rfl⟩

/-- Only a list passes where a list is asked for. -/
theorem requireList_ok {handle : Nat} :
    requireList name value = .ok handle ↔ value = .list handle := by
  cases value <;> simp [requireList]

/-- Only an integer passes as an index, and only one that is inside. -/
theorem requireIndex_ok {size index : Nat} :
    requireIndex value size = .ok index ↔ value = .integer index ∧ index < size := by
  cases value with
  | integer number =>
    simp only [requireIndex, Bool.and_eq_true, decide_eq_true_eq, Value.integer.injEq]
    split
    · simp only [Except.ok.injEq]
      omega
    · simp only [reduceCtorEq, false_iff]
      omega
  | _ => simp [requireIndex]

/-- An element is given when there is a list, and in it the index. -/
theorem run_elementAt_ok {offset element : Value} :
    (elementAt name value offset).run machine = (.ok element, final) ↔
      (∃ handle index : Nat, value = .list handle ∧ offset = .integer index ∧
        (machine.store.elements handle)[index]? = some element) ∧ machine = final := by
  have lists {store : Store} {last : Machine ν} :
      (Run.store : Run ν Store).run machine = (.ok store, last) ↔
        machine.store = store ∧ machine = last := by
    change ((Except.ok machine.store : Except Stop Store), machine) = _ ↔ _
    simp
  simp only [elementAt, run_bind_ok, run_outcome_ok, run_pure_ok, requireList_ok,
    requireIndex_ok]
  constructor
  · rintro ⟨handle, _, ⟨rfl, rfl⟩, store, last, stored, index, _, ⟨⟨rfl, inside⟩, rfl⟩, rfl, rfl⟩
    obtain ⟨rfl, rfl⟩ := lists.mp stored
    exact ⟨⟨handle, index, rfl, rfl, by simp [List.getElem?_eq_getElem inside]⟩, rfl⟩
  · rintro ⟨⟨handle, index, rfl, rfl, there⟩, rfl⟩
    obtain ⟨inside, _⟩ := List.getElem?_eq_some_iff.mp there
    exact ⟨handle, machine, ⟨rfl, rfl⟩, machine.store, machine, lists.mpr ⟨rfl, rfl⟩, index,
      machine, ⟨⟨rfl, inside⟩, rfl⟩, by simp [there], rfl⟩

/-! ## What is read -/

/-- The variable that the name means in the state has the value. -/
def Holds (machine : Machine ν) (name : String) (value : Value) : Prop :=
  ∃ place entry, machine.environment.lookupVariable name = .ok (place, entry) ∧
    entry.value = value

/-- A name means one value. -/
theorem Holds.unique {other : Value} (one : Holds machine name value)
    (two : Holds machine name other) : value = other := by
  obtain ⟨place, entry, found, rfl⟩ := one
  obtain ⟨_, _, again, rfl⟩ := two
  cases found.symm.trans again
  rfl

/-- With a budget that is large enough, the expression has the value and leaves the state as
it is. -/
def Reads (machine : Machine ν) (expression : Expr ν) (value : Value) : Prop :=
  ∃ least, ∀ budget, least ≤ budget →
    (evaluate budget expression).run machine = (.ok value, machine)

/-- An integer that may be written as a literal is read from it. -/
theorem reads_literal {number : Int} (fits : Literal.fitsInteger number = true) (type : ν.type) :
    Reads machine (.literal type (.integer number)) (.integer number) := by
  refine ⟨1, fun budget enough => ?_⟩
  obtain ⟨budget, rfl⟩ := Nat.exists_eq_add_of_le' enough
  rw [evaluate, run_outcome_ok]
  exact ⟨by simp [literalValue, fits], rfl⟩

/-- A variable is read as what it holds. -/
theorem reads_access {type : ν.type} {entry : ν.entry} :
    Reads machine (.access type entry name) value ↔ Holds machine name value := by
  have evaluated (budget : Nat) :
      (evaluate (budget + 1) (.access type entry name)).run machine = (.ok value, machine) ↔
        Holds machine name value := by
    simp only [evaluate, run_bind_ok, run_variableOf_ok, run_pure_ok]
    constructor
    · rintro ⟨found, _, ⟨⟨place, there⟩, rfl⟩, same, _⟩
      exact ⟨place, found, there, same⟩
    · rintro ⟨place, found, there, same⟩
      exact ⟨found, machine, ⟨⟨place, there⟩, rfl⟩, same, rfl⟩
  constructor
  · rintro ⟨least, reads⟩
    exact (evaluated least).mp (reads (least + 1) (by omega))
  · intro holds
    refine ⟨1, fun budget enough => ?_⟩
    obtain ⟨budget, rfl⟩ := Nat.exists_eq_add_of_le' enough
    exact (evaluated budget).mpr holds

/-- An element is read from the list that the variable holds, at an offset that is read. -/
theorem reads_element {type : ν.type} {entry : ν.entry} {offset : Expr ν} {index : Nat}
    (read : Reads machine offset (.integer index)) :
    Reads machine (.element type entry name offset) value ↔
      ∃ handle, Holds machine name (.list handle) ∧
        (machine.store.elements handle)[index]? = some value := by
  have evaluated {budget : Nat}
      (offsetRead : (evaluate budget offset).run machine = (.ok (.integer index), machine)) :
      (evaluate (budget + 1) (.element type entry name offset)).run machine =
          (.ok value, machine) ↔
        ∃ handle, Holds machine name (.list handle) ∧
          (machine.store.elements handle)[index]? = some value := by
    simp only [evaluate, discard_eq, run_bind_ok, run_variableOf_ok, run_pure_ok,
      run_elementAt_ok]
    constructor
    · rintro ⟨_, _, ⟨_, _, ⟨_, rfl⟩, _, rfl⟩, given, _, evaluated, found, _, ⟨⟨place, there⟩, rfl⟩,
        ⟨handle, _, holds, rfl, element⟩, _⟩
      cases offsetRead.symm.trans evaluated
      exact ⟨handle, ⟨place, found, there, holds⟩, element⟩
    · rintro ⟨handle, ⟨place, found, there, holds⟩, element⟩
      exact ⟨⟨⟩, machine, ⟨found, machine, ⟨⟨place, there⟩, rfl⟩, trivial, rfl⟩, .integer index,
        machine, offsetRead, found, machine, ⟨⟨place, there⟩, rfl⟩,
        ⟨handle, index, holds, rfl, element⟩, rfl⟩
  obtain ⟨least, offsetReads⟩ := read
  constructor
  · rintro ⟨enough, reads⟩
    exact (evaluated (offsetReads (max least enough) (by omega))).mp
      (reads (max least enough + 1) (by omega))
  · intro element
    refine ⟨least + 1, fun budget enough => ?_⟩
    obtain ⟨budget, rfl⟩ := Nat.exists_eq_add_of_le' (Nat.le_of_add_left_le enough)
    exact (evaluated (offsetReads budget (by omega))).mpr element

/-! ## What is assigned -/

/-- A change of the scopes changes nothing else. -/
theorem run_change_ok
    {step : Environment Value (Body ν) → Except ScopeFault (Environment Value (Body ν))}
    {given : Unit} :
    (Run.change step).run machine = (.ok given, final) ↔
      ∃ environment, step machine.environment = .ok environment ∧
        final = { machine with environment := environment } := by
  rw [run_change]
  cases step machine.environment with
  | error fault =>
    constructor
    · rintro ⟨⟩
    · rintro ⟨_, ⟨⟩, _⟩
  | ok environment =>
    constructor
    · rintro ⟨⟩
      exact ⟨environment, rfl, rfl⟩
    · rintro ⟨_, ⟨⟩, rfl⟩
      rfl

/-- A name that has been assigned to holds the value that was evaluated. -/
theorem execute_access {type : ν.type} {entry : ν.entry} {expression : Expr ν}
    (completes : (execute (budget + 1) (.assignment (.access type entry name) expression)).run
      before = (.ok outcome, after)) :
    ∃ result valued, (evaluate budget expression).run before = (.ok result, valued) ∧
      Holds after name result := by
  simp only [execute, discard_eq, run_bind_ok, run_pure_ok, run_change_ok] at completes
  obtain ⟨result, valued, given, _, _, ⟨_, _, allowed, _, rfl⟩, _, _, ⟨environment, assigned, rfl⟩,
    _, rfl⟩ := completes
  obtain ⟨_, _, rfl⟩ := run_mutableOf_ok.mp allowed
  obtain ⟨place, found, _, meant⟩ := Environment.lookupVariable_setVariable assigned
  exact ⟨result, valued, given, place, { found with value := result }, meant, rfl⟩

/-- How an assignment to an element goes. The value is evaluated, the list that the name then
holds is taken, the offset is evaluated, and the value is put there into the list that was
taken. -/
structure ElementAssigned (budget : Nat) (name : String) (offset expression : Expr ν)
    (before after : Machine ν) (taken index : Nat) (result : Value) (valued placed : Machine ν) :
    Prop where
  value : (evaluate budget expression).run before = (.ok result, valued)
  holds : Holds valued name (.list taken)
  offset : (evaluate budget offset).run valued = (.ok (.integer index), placed)
  inside : index < (placed.store.elements taken).length
  written : after = { placed with store := placed.store.replace taken index result }

/-- An assignment to an element that completes has gone the way of one. -/
theorem execute_element {type : ν.type} {entry : ν.entry} {offset expression : Expr ν}
    (completes : (execute (budget + 1)
      (.assignment (.element type entry name offset) expression)).run before =
        (.ok outcome, after)) :
    ∃ taken index result valued placed,
      ElementAssigned budget name offset expression before after taken index result valued
        placed := by
  simp only [execute, run_bind_ok, run_pure_ok, run_outcome_ok, run_mutableOf_ok, requireList_ok,
    requireIndex_ok] at completes
  obtain ⟨result, valued, given, found, _, ⟨⟨place, there⟩, _, rfl⟩, taken, _, ⟨holds, rfl⟩, _,
    placed, evaluated, store, last, stored, index, _, ⟨⟨rfl, inside⟩, rfl⟩, _, _, replaced, _,
    rfl⟩ := completes
  cases stored
  cases replaced
  exact ⟨taken, index, result, valued, placed, given, ⟨place, found, there, holds⟩, evaluated,
    inside, rfl⟩

/-- Behind an assignment to an element, the element of a list is the value if this is the list
that was written to, or if it was the value before. -/
theorem ElementAssigned.element {offset expression : Expr ν} {taken index other : Nat}
    {result : Value} {valued placed : Machine ν}
    (assigned : ElementAssigned budget name offset expression before after taken index result
      valued placed) :
    (after.store.elements other)[index]? = some result ↔
      other = taken ∨ (placed.store.elements other)[index]? = some result := by
  rw [assigned.written, Store.elements_replace]
  by_cases same : other = taken
  · simp [same, assigned.inside]
  · simp [same]

/-- What is assigned is read. Behind a completed assignment to a name, the name is read as the
value. Behind a completed assignment to an element, an element of any variable at that index
is read as the value just when the variable holds the list that was written to, or a list that
had the value there before. The list that was written to is the one that the name held before
the offset was evaluated; as long as the offset does not give the name another list, that is
the list that the name holds. -/
theorem assigned_is_read (ν : Notes) :
    (∀ (budget : Nat) (type : ν.type) (entry : ν.entry) (name : String) (expression : Expr ν)
      (before after : Machine ν) (outcome : Outcome),
      (execute (budget + 1) (.assignment (.access type entry name) expression)).run before =
        (.ok outcome, after) →
      ∃ result valued, (evaluate budget expression).run before = (.ok result, valued) ∧
        ∀ type entry, Reads after (.access type entry name) result) ∧
    (∀ (budget : Nat) (type : ν.type) (entry : ν.entry) (name : String)
      (offset expression : Expr ν) (before after : Machine ν) (outcome : Outcome),
      (execute (budget + 1) (.assignment (.element type entry name offset) expression)).run
        before = (.ok outcome, after) →
      ∃ taken index result valued placed,
        ElementAssigned budget name offset expression before after taken index result valued
          placed ∧
        ∀ (other : String) (place : Expr ν), Reads after place (.integer index) →
          ∀ type entry, Reads after (.element type entry other place) result ↔
            ∃ now, Holds placed other (.list now) ∧
              (now = taken ∨ (placed.store.elements now)[index]? = some result)) ∧
    ∀ (machine : Machine ν) (type : ν.type) (number : Int),
      Literal.fitsInteger number = true →
      Reads machine (.literal type (.integer number)) (.integer number) := by
  refine ⟨?_, ?_, fun machine type number fits => reads_literal fits type⟩
  · intro budget type entry name expression before after outcome completes
    obtain ⟨result, valued, given, holds⟩ := execute_access completes
    exact ⟨result, valued, given, fun _ _ => reads_access.mpr holds⟩
  · intro budget type entry name offset expression before after outcome completes
    obtain ⟨taken, index, result, valued, placed, assigned⟩ := execute_element completes
    refine ⟨taken, index, result, valued, placed, assigned, fun other place read type entry => ?_⟩
    have holds (value : Value) : Holds after other value ↔ Holds placed other value := by
      rw [assigned.written]
      exact Iff.rfl
    simp only [reads_element read, holds, assigned.element]

/-- A function that gives `x` the list of `y`, and zero. -/
def switching : FunctionDef .bare :=
  ⟨"f", [], [], some "Integer",
    [.assignment (.access () () "x") (.access () () "y"), .returning (.literal () (.integer 0))],
    ()⟩

/-- The state in which `x` and `y` hold lists of their own, or both that of `y`. -/
def crossing (held : Nat) (first : Int) : Machine .bare :=
  { environment :=
      ⟨#[{ parent := none
           entries :=
             [⟨"x", .list .integer, true, .list held⟩, ⟨"y", .list .integer, true, .list 1⟩]
           functions := [⟨"f", [], some .integer, some (.script switching 0)⟩] }]⟩
    store := ⟨#[[.integer first, .integer 2], [.integer 3, .integer 4]]⟩ }

/-- The element of `x` at an offset. -/
def elementOf (offset : Expr .bare) : Expr .bare :=
  .element () () "x" offset

/-- The value that the example takes as its index is zero. -/
theorem crossing_zero (held : Nat) (first : Int) :
    Reads (crossing held first) (.literal () (.integer 0)) (.integer (0 : Nat)) :=
  @reads_literal .bare (crossing held first) 0 (by decide) ()

/-- Behind `x[0] = 9`, with an offset that leaves everything as it is, nine is read. -/
theorem crossing_read :
    (execute 2 (.assignment (elementOf (.literal () (.integer 0))) (.literal () (.integer 9)))).run
      (crossing 0 1) = (.ok .completed, crossing 0 9) ∧
    Reads (crossing 0 9) (elementOf (.literal () (.integer 0))) (.integer 9) := by
  have completes : (execute 2 (.assignment (elementOf (.literal () (.integer 0)))
      (.literal () (.integer 9)))).run (crossing 0 1) = (.ok .completed, crossing 0 9) := by
    cbv
  obtain ⟨taken, index, result, valued, placed, assigned, read⟩ :=
    (assigned_is_read .bare).2.1 _ _ _ _ _ _ _ _ _ completes
  have given : (evaluate 1 (.literal () (.integer 9))).run (crossing 0 1) =
      (.ok (.integer 9), crossing 0 1) := by
    cbv
  cases given.symm.trans assigned.value
  have offset : (evaluate 1 (.literal () (.integer 0))).run (crossing 0 1) =
      (.ok (.integer (0 : Nat)), crossing 0 1) := by
    cbv
  cases offset.symm.trans assigned.offset
  have element := (read "x" _ (crossing_zero 0 9) () ()).mpr ⟨taken, assigned.holds, .inl rfl⟩
  exact ⟨completes, element⟩

/-- A program that assigns to an element while its offset gives the name another list. -/
def crossingText : String :=
  "LIST x = [1, 2]; LIST y = [3, 4]; FUN f(): Integer DO x = y; RETURN 0; END " ++
    "FUN main(): Integer DO x[f()] = 9; print(x[0]); RETURN 0; END"

/-- The assignment `x[f()] = 9`, where `f` gives `x` another list, completes with nine as the
value and zero as the offset. But `x[0]` is then read as three: nine stands in the list that
`x` held before. A program of which this is a part prints three. -/
theorem crossing_missed :
    (execute 9 (.assignment (elementOf (.call () () "f" [])) (.literal () (.integer 9)))).run
      (crossing 0 1) = (.ok .completed, crossing 1 9) ∧
    (evaluate 8 (.literal () (.integer 9))).run (crossing 0 1) =
      (.ok (.integer 9), crossing 0 1) ∧
    (evaluate 8 (.call () () "f" [])).run (crossing 0 1) = (.ok (.integer 0), crossing 1 1) ∧
    Reads (crossing 1 9) (elementOf (.literal () (.integer 0))) (.integer 3) ∧
    ¬ Reads (crossing 1 9) (elementOf (.literal () (.integer 0))) (.integer 9) ∧
    interpret 40 crossingText = ("3\n", .ok (.integer 0)) := by
  have holds : Holds (crossing 1 9) "x" (.list 1) :=
    ⟨0, ⟨"x", .list .integer, true, .list 1⟩, by cbv, rfl⟩
  refine ⟨by cbv, by cbv, by cbv, ?_, ?_, by cbv⟩
  · exact (reads_element (crossing_zero 1 9)).mpr ⟨1, holds, rfl⟩
  · intro nine
    obtain ⟨handle, again, element⟩ := (reads_element (crossing_zero 1 9)).mp nine
    cases holds.unique again
    cases element

end Running

end Blockscript
