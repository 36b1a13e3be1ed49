import Blockscript.Running.Program

/-!
# How a run ends

A part of a run ends with a value or with a stop, and leaves a state in both cases.
What is asked of the two ends is asked separately. Every way of putting runs
together has one law that says what has to be asked of its parts.
-/

namespace Blockscript.Running

variable {σ α β : Type} {start : σ} {post : α → σ → Prop} {halt : Stop → σ → Prop}

/-- Behind an action that gives a value the next one runs, and behind one that stops none
does. -/
theorem run_bind (action : ExceptT Stop (StateM σ) α) (next : α → ExceptT Stop (StateM σ) β)
    (start : σ) :
    (action >>= next).run start =
      match action.run start with
      | (.ok value, middle) => (next value).run middle
      | (.error stop, middle) => (.error stop, middle) := by
  change ExceptT.bindCont next (action.run start).1 (action.run start).2 = _
  cases action.run start with
  | mk outcome middle => cases outcome <;> rfl

/-- To discard a value is to give none behind it. -/
theorem discard_eq (action : ExceptT Stop (StateM σ) α) :
    discard action = action >>= fun _ => pure ⟨⟩ := by
  rw [discard, map_const, Function.comp_apply, map_eq_pure_bind]

/-- Started in a state, the action either gives a value and leaves a state that
meets the one condition, or it stops in a state that meets the other. -/
def Meets (action : ExceptT Stop (StateM σ) α) (start : σ) (post : α → σ → Prop)
    (halt : Stop → σ → Prop) : Prop :=
  match action.run start with
  | (.ok value, final) => post value final
  | (.error stop, final) => halt stop final

/-- To give a value meets what holds of it in the state. -/
@[simp] theorem meets_pure {value : α} :
    Meets (pure value) start post halt ↔ post value start :=
  Iff.rfl

/-- A stop meets what holds of it in the state. -/
@[simp] theorem meets_throw {stop : Stop} :
    Meets (throw stop) start post halt ↔ halt stop start :=
  Iff.rfl

/-- Two actions in order meet a condition when the second one does wherever the first one ends.
-/
@[simp] theorem meets_bind {action : ExceptT Stop (StateM σ) α}
    {next : α → ExceptT Stop (StateM σ) β} {post : β → σ → Prop} :
    Meets (action >>= next) start post halt ↔
      Meets action start (fun value middle => Meets (next value) middle post halt) halt := by
  unfold Meets
  rw [run_bind]
  cases action.run start with
  | mk outcome middle => cases outcome <;> rfl

/-- An action whose value is not needed meets what the action meets. -/
@[simp] theorem meets_discard {action : ExceptT Stop (StateM σ) α} {post : PUnit → σ → Prop} :
    Meets (discard action) start post halt ↔
      Meets action start (fun _ final => post ⟨⟩ final) halt := by
  rw [discard_eq, meets_bind]
  rfl

/-- To look at the state gives it and leaves it. -/
@[simp] theorem meets_get {post : σ → σ → Prop} :
    Meets (get : ExceptT Stop (StateM σ) σ) start post halt ↔ post start start :=
  Iff.rfl

/-- To set the state leaves the new one. -/
@[simp] theorem meets_set {state : σ} {post : PUnit → σ → Prop} :
    Meets (set state : ExceptT Stop (StateM σ) PUnit) start post halt ↔ post ⟨⟩ state :=
  Iff.rfl

/-- To change the state leaves the changed one. -/
@[simp] theorem meets_modify {change : σ → σ} {post : PUnit → σ → Prop} :
    Meets (modify change : ExceptT Stop (StateM σ) PUnit) start post halt ↔
      post ⟨⟩ (change start) :=
  Iff.rfl

/-- An action that meets stronger conditions meets the given ones. -/
theorem Meets.imp {action : ExceptT Stop (StateM σ) α} {strong : α → σ → Prop}
    {strongHalt : Stop → σ → Prop} (meets : Meets action start strong strongHalt)
    (ends : ∀ value final, strong value final → post value final)
    (stops : ∀ stop final, strongHalt stop final → halt stop final) :
    Meets action start post halt := by
  unfold Meets at *
  split
  · next value final outcome =>
    rw [outcome] at meets
    exact ends value final meets
  · next stop final outcome =>
    rw [outcome] at meets
    exact stops stop final meets

/-- The condition that is met holds of the value that is given. -/
theorem Meets.ok {action : ExceptT Stop (StateM σ) α} {value : α} {final : σ}
    (meets : Meets action start post halt) (given : action.run start = (.ok value, final)) :
    post value final := by
  unfold Meets at meets
  rw [given] at meets
  exact meets

/-- The condition that is met holds of the stop. -/
theorem Meets.error {action : ExceptT Stop (StateM σ) α} {stop : Stop} {final : σ}
    (meets : Meets action start post halt) (stopped : action.run start = (.error stop, final)) :
    halt stop final := by
  unfold Meets at meets
  rw [stopped] at meets
  exact meets

/-- What is asked of the state at both ends holds of the state that is left. -/
theorem Meets.state {action : ExceptT Stop (StateM σ) α} (holds : σ → Prop)
    (meets : Meets action start (fun _ final => holds final) fun _ final => holds final) :
    holds (action.run start).2 := by
  cases ending : action.run start with
  | mk result final =>
    cases result with
    | ok value => exact meets.ok ending
    | error stop => exact meets.error ending

/-- What is asked of the ends of an action may be asked at once. -/
theorem Meets.both {action : ExceptT Stop (StateM σ) α} {start : σ}
    {first second : α → σ → Prop} {firstHalt secondHalt : Stop → σ → Prop}
    (one : Meets action start first firstHalt) (other : Meets action start second secondHalt) :
    Meets action start (fun value final => first value final ∧ second value final)
      fun stop final => firstHalt stop final ∧ secondHalt stop final := by
  unfold Meets at *
  split
  · next ending =>
    rw [ending] at one other
    exact ⟨one, other⟩
  · next ending =>
    rw [ending] at one other
    exact ⟨one, other⟩

/-! ## Steps of the machine -/

section Machine

variable {ν : Notes} {machine : Machine ν} {post : α → Machine ν → Prop}
  {halt : Stop → Machine ν → Prop}

/-- A lookup gives what is found or stops, and leaves the state. -/
theorem run_lookup (find : Environment Value (Body ν) → Except ScopeFault α)
    (machine : Machine ν) :
    (Run.lookup find).run machine =
      match find machine.environment with
      | .ok found => (.ok found, machine)
      | .error fault => (.error (.fault (.scope fault)), machine) := by
  have state : (get : Run ν (Machine ν)).run machine = (.ok machine, machine) := rfl
  unfold Run.lookup
  rw [run_bind, state]
  simp only
  cases find machine.environment with
  | ok found => rfl
  | error fault => rfl

/-- A change of the scopes is made or stops, and leaves everything else. -/
theorem run_change
    (step : Environment Value (Body ν) → Except ScopeFault (Environment Value (Body ν)))
    (machine : Machine ν) :
    (Run.change step).run machine =
      match step machine.environment with
      | .ok environment => (.ok (), { machine with environment := environment })
      | .error fault => (.error (.fault (.scope fault)), machine) := by
  have state : (get : Run ν (Machine ν)).run machine = (.ok machine, machine) := rfl
  unfold Run.change
  rw [run_bind, state]
  simp only
  cases step machine.environment with
  | ok environment => rfl
  | error fault => rfl

/-- A fault meets what holds of its stop. -/
@[simp] theorem meets_fail {fault : RunFault} :
    Meets (Run.fail fault) machine post halt ↔ halt (.fault fault) machine :=
  Iff.rfl

/-- To pass an outcome on meets what holds of its value or of its fault. -/
@[simp] theorem meets_outcome {result : Except RunFault α} :
    Meets (Run.outcome result) machine post halt ↔
      (∀ value, result = .ok value → post value machine) ∧
        ∀ fault, result = .error fault → halt (.fault fault) machine := by
  cases result with
  | ok value => simp [Run.outcome]
  | error fault => simp [Run.outcome]

/-- To look at the lists gives them and leaves the state. -/
@[simp] theorem meets_store {post : Store → Machine ν → Prop} :
    Meets Run.store machine post halt ↔ post machine.store machine :=
  Iff.rfl

/-- A lookup meets what holds of whatever is found or refused. -/
@[simp] theorem meets_lookup {find : Environment Value (Body ν) → Except ScopeFault α} :
    Meets (Run.lookup find) machine post halt ↔
      (∀ found, find machine.environment = .ok found → post found machine) ∧
        ∀ fault, find machine.environment = .error fault →
          halt (.fault (.scope fault)) machine := by
  simp only [Run.lookup, meets_bind, meets_get]
  cases find machine.environment with
  | ok found => simp
  | error fault => simp

/-- A change of the scopes meets what holds of whatever scopes there are then. -/
@[simp] theorem meets_change {post : Unit → Machine ν → Prop}
    {step : Environment Value (Body ν) → Except ScopeFault (Environment Value (Body ν))} :
    Meets (Run.change step) machine post halt ↔
      (∀ environment, step machine.environment = .ok environment →
        post () { machine with environment := environment }) ∧
        ∀ fault, step machine.environment = .error fault →
          halt (.fault (.scope fault)) machine := by
  simp only [Run.change, meets_bind, meets_get]
  cases step machine.environment with
  | ok environment => simp
  | error fault => simp

/-- A new list meets what holds of its handle and of the lists with it. -/
@[simp] theorem meets_allocate {elements : List Value} {post : Value → Machine ν → Prop} :
    Meets (Run.allocate elements) machine post halt ↔
      post (.list (machine.store.allocate elements).1)
        { machine with store := (machine.store.allocate elements).2 } :=
  Iff.rfl

/-- The replacing of an element meets what holds of the lists behind it. -/
@[simp] theorem meets_replace {handle index : Nat} {value : Value}
    {post : Unit → Machine ν → Prop} :
    Meets (Run.replace handle index value) machine post halt ↔
      post () { machine with store := machine.store.replace handle index value } :=
  Iff.rfl

/-- A trace pushes its message when it is asked for. When there is none, it stops. -/
theorem run_trace (detail : Nat) (message : Store → Option Message) (machine : Machine ν) :
    (Run.trace detail message).run machine =
      if detail ≤ machine.detail then
        match message machine.store with
        | some message => (.ok (), { machine with trace := machine.trace.push message })
        | none => (.error (.fault .unwritable), machine)
      else (.ok (), machine) := by
  have state : (get : Run ν (Machine ν)).run machine = (.ok machine, machine) := rfl
  unfold Run.trace
  rw [run_bind, state]
  simp only
  split
  · cases message machine.store with
    | some message => rfl
    | none => rfl
  · rfl

/-- Where a trace stops, nothing has been traced. -/
theorem trace_stops {detail : Nat} {message : Store → Option Message} {machine after : Machine ν}
    {stop : Stop} (stopped : (Run.trace detail message).run machine = (.error stop, after)) :
    stop = .fault .unwritable ∧ after = machine := by
  rw [run_trace] at stopped
  split at stopped
  · split at stopped
    · cases stopped
    · cases stopped
      exact ⟨rfl, rfl⟩
  · cases stopped

/-- Tracing leaves the scopes and the lists alone. It may find nothing to tell. -/
theorem meets_trace {detail : Nat} {message : Store → Option Message}
    {post : Unit → Machine ν → Prop}
    (ends : ∀ final : Machine ν, final.environment = machine.environment →
      final.store = machine.store → post () final) (stops : halt (.fault .unwritable) machine) :
    Meets (Run.trace detail message) machine post halt := by
  unfold Meets
  rw [run_trace]
  split
  · next value final outcome =>
    split at outcome
    · split at outcome
      · cases outcome
        exact ends _ rfl rfl
      · cases outcome
    · cases outcome
      exact ends _ rfl rfl
  · next stop final outcome =>
    split at outcome
    · split at outcome
      · cases outcome
      · cases outcome
        exact stops
    · cases outcome

/-- Tracing what can always be told does not stop. -/
theorem meets_trace_told {detail : Nat} {message : Message} {post : Unit → Machine ν → Prop}
    (ends : ∀ final : Machine ν, final.environment = machine.environment →
      final.store = machine.store → post () final) :
    Meets (Run.trace detail fun _ => some message) machine post halt := by
  unfold Meets
  rw [run_trace]
  split
  · next value final outcome =>
    split at outcome
    · cases outcome
      exact ends _ rfl rfl
    · cases outcome
      exact ends _ rfl rfl
  · next stop final outcome =>
    split at outcome
    · cases outcome
    · cases outcome

/-- Printing leaves the scopes and the lists alone. -/
theorem meets_print {text : String} {post : Unit → Machine ν → Prop}
    (ends : ∀ final : Machine ν, final.environment = machine.environment →
      final.store = machine.store → post () final) :
    Meets (Run.print text) machine post halt := by
  unfold Run.print
  rw [meets_modify]
  exact ends _ rfl rfl

/-- What is done in a scope of its own ends as it should when it does so inside and the scope
can be closed then. -/
theorem meets_inScope {parent : Option Nat} {body : Run ν α}
    (within : Meets body { machine with environment := machine.environment.openScope parent }
      (fun value after => ∃ environment,
        after.environment.closeScope (machine.environment.openScope parent).current =
          .ok environment ∧ post value { after with environment := environment })
      fun stop after => ∃ environment,
        after.environment.closeScope (machine.environment.openScope parent).current =
          .ok environment ∧ halt stop { after with environment := environment }) :
    Meets (Run.inScope parent body) machine post halt := by
  unfold Meets at within ⊢
  simp only [Run.inScope, ExceptT.run_mk]
  simp only [ExceptT.run] at within
  cases ending : body { machine with environment := machine.environment.openScope parent } with
  | mk result after =>
    rw [ending] at within
    cases result with
    | ok value =>
      obtain ⟨environment, closed, held⟩ := within
      simp only [closed]
      exact held
    | error stop =>
      obtain ⟨environment, closed, held⟩ := within
      simp only [closed]
      exact held

end Machine

end Blockscript.Running
