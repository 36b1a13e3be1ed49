import Blockscript.Proofs.Running.Discipline

/-!
# Tracing interferes by stopping alone

A run does the same whatever detail is traced, as long as what is traced can be written. What
it tells is settled by what it does: the messages come in one order for all levels of detail,
and each level traces those of them that belong to it.

A value that cannot be written has no message. Then the run stops where the message is asked
for, and a run with less detail goes on. Up to there both do the same.
-/

namespace Blockscript.Running

open Environment (Gains)

variable {ν : Notes} {α β : Type} {budget : Nat}

/-- A state with another trace, at another level of detail. -/
def Machine.tracing (machine : Machine ν) (detail : Nat) (trace : Array Message) : Machine ν :=
  { machine with detail := detail, trace := trace }

/-- Tracing leaves the scopes as they are. -/
theorem Machine.tracing_environment (machine : Machine ν) (detail : Nat)
    (trace : Array Message) : (machine.tracing detail trace).environment = machine.environment :=
  rfl

/-- The messages that a level of detail traces. -/
def heard (detail : Nat) (told : Array Message) : Array Message :=
  told.filter fun message => message.detail ≤ detail

/-- What is told behind something else is heard behind it. -/
theorem heard_append (detail : Nat) (told more : Array Message) :
    heard detail (told ++ more) = heard detail told ++ heard detail more :=
  Array.filter_append Array.size_append

/-- Nothing is heard of nothing. -/
theorem heard_empty (detail : Nat) : heard detail #[] = #[] :=
  Array.filter_empty

/-! ## What is written grows -/

/-- A state has printed and traced more than another. -/
structure Grown (before after : Machine ν) : Prop where
  detail : after.detail = before.detail
  output : ∃ rest, after.output = before.output ++ rest
  trace : ∃ told, after.trace = before.trace ++ heard before.detail told

/-- Nothing has been written. -/
theorem Grown.refl (machine : Machine ν) : Grown machine machine :=
  ⟨rfl, ⟨"", by simp⟩, #[], by rw [heard_empty, Array.append_empty]⟩

/-- What is written on the way adds up. -/
theorem Grown.trans {before middle after : Machine ν} (first : Grown before middle)
    (second : Grown middle after) : Grown before after := by
  obtain ⟨detail, ⟨rest, output⟩, told, trace⟩ := first
  obtain ⟨detailMore, ⟨restMore, outputMore⟩, toldMore, traceMore⟩ := second
  refine ⟨detailMore.trans detail, ⟨rest ++ restMore, ?_⟩, told ++ toldMore, ?_⟩
  · rw [outputMore, output, String.append_assoc]
  · rw [traceMore, trace, detail, heard_append, Array.append_assoc]

/-! ## Two levels of detail -/

/-- Two runs from one state, at two levels of detail and behind two traces, come to the same
end, and trace of the same messages what belongs to their levels. -/
def Matches (low high : Nat) (lowTrace highTrace : Array Message)
    (first second : Except Stop β × Machine ν) : Prop :=
  ∃ (result : Except Stop β) (after : Machine ν) (told : Array Message),
    first = (result, after.tracing low (lowTrace ++ heard low told)) ∧
      second = (result, after.tracing high (highTrace ++ heard high told))

/-- The second of two runs has stopped at a message that is not there. What it has printed and
traced until then, the first one has printed and traced first, as far as its level allows. -/
structure CutShort (low high : Nat) (lowTrace highTrace : Array Message)
    (first second : Except Stop β × Machine ν) : Prop where
  tracing : 2 ≤ high
  stopped : second.1 = .error (.fault .unwritable)
  output : ∃ rest, first.2.output = second.2.output ++ rest
  trace : ∃ told more, second.2.trace = highTrace ++ heard high told ∧
    first.2.trace = lowTrace ++ heard low (told ++ more)

/-- Tracing only observes the action: it writes no less than there was, and from one state it
ends at a higher level of detail as it does at a lower one, unless it is cut short there. -/
structure Observed (action : Run ν β) : Prop where
  grows : ∀ machine : Machine ν, Grown machine (action.run machine).2
  compares : ∀ machine : Machine ν, 0 < machine.environment.scopes.size →
    ∀ low high lowTrace highTrace, low ≤ high →
      Matches low high lowTrace highTrace (action.run (machine.tracing low lowTrace))
          (action.run (machine.tracing high highTrace)) ∨
        CutShort low high lowTrace highTrace (action.run (machine.tracing low lowTrace))
          (action.run (machine.tracing high highTrace))

/-! ## Steps -/

/-- An action that neither looks at the trace nor adds to it, and prints nothing. -/
structure Silent (action : Run ν β) : Prop where
  ends : ∀ (machine : Machine ν) detail trace, action.run (machine.tracing detail trace) =
    ((action.run machine).1, (action.run machine).2.tracing detail trace)
  output : ∀ machine : Machine ν, (action.run machine).2.output = machine.output

/-- Silent actions behind one another are silent. -/
theorem Silent.bind {action : Run ν α} {next : α → Run ν β} (first : Silent action)
    (rest : ∀ value, Silent (next value)) : Silent (action >>= next) := by
  constructor
  · intro machine detail trace
    rw [run_bind, run_bind, first.ends]
    cases action.run machine with
    | mk result middle =>
      cases result with
      | error stop => rfl
      | ok value => exact (rest value).ends middle detail trace
  · intro machine
    have kept := first.output machine
    rw [run_bind]
    cases ending : action.run machine with
    | mk result middle =>
      rw [ending] at kept
      cases result with
      | error stop => exact kept
      | ok value => exact ((rest value).output middle).trans kept

/-- What is silent is only observed. -/
theorem Silent.observed {action : Run ν β} (silent : Silent action) : Observed action := by
  constructor
  · intro machine
    have kept := congrArg Prod.snd (silent.ends machine machine.detail machine.trace)
    change (action.run machine).2 = _ at kept
    refine ⟨by rw [kept]; rfl, ⟨"", by rw [silent.output, String.append_empty]⟩, #[], ?_⟩
    rw [kept, heard_empty, Array.append_empty]
    rfl
  · intro machine _ low high lowTrace highTrace _
    refine .inl ⟨(action.run machine).1, (action.run machine).2, #[], ?_, ?_⟩
    · rw [silent.ends, heard_empty, Array.append_empty]
    · rw [silent.ends, heard_empty, Array.append_empty]

/-- An action that goes on leaves a scope open. -/
def Occupying (action : Run ν α) : Prop :=
  ∀ machine : Machine ν, 0 < machine.environment.scopes.size →
    ∀ value after, action.run machine = (.ok value, after) → 0 < after.environment.scopes.size

/-- Confined actions open and close as many scopes. -/
theorem Confined.occupying {allowed : List (Variable Unit) → Prop} {action : Run ν α}
    (confined : Confined allowed action) : Occupying action := by
  intro machine occupied value after ran
  obtain ⟨_, _, gains⟩ := (confined machine occupied).ok ran
  rwa [gains.size]

/-- Actions behind one another leave a scope open when each of them does. -/
theorem Occupying.bind {action : Run ν α} {next : α → Run ν β} (first : Occupying action)
    (rest : ∀ value, Occupying (next value)) : Occupying (action >>= next) := by
  intro machine occupied value after ran
  rw [run_bind] at ran
  split at ran
  · next middle between ended =>
    exact rest middle between (first machine occupied middle between ended) value after ran
  · cases ran

/-- One action behind another writes what both write. -/
theorem grows_bind {action : Run ν α} {next : α → Run ν β}
    (first : ∀ machine, Grown machine (action.run machine).2)
    (rest : ∀ value machine, Grown machine ((next value).run machine).2) (machine : Machine ν) :
    Grown machine ((action >>= next).run machine).2 := by
  have grown := first machine
  rw [run_bind]
  cases ending : action.run machine with
  | mk result middle =>
    rw [ending] at grown
    cases result with
    | error stop => exact grown
    | ok value => exact grown.trans (rest value middle)

/-- A run that is cut short is so whatever the other one does behind it. -/
theorem CutShort.further {low high : Nat} {lowTrace highTrace : Array Message} {stop : Stop}
    {first second : Except Stop α × Machine ν} {after : Except Stop β × Machine ν}
    (cut : CutShort low high lowTrace highTrace first second) (level : first.2.detail = low)
    (grown : Grown first.2 after.2) (ended : second.1 = .error stop) :
    CutShort low high lowTrace highTrace after (.error stop, second.2) := by
  obtain ⟨tracing, stopped, ⟨rest, output⟩, told, more, highTraced, lowTraced⟩ := cut
  obtain ⟨_, ⟨restMore, outputMore⟩, toldMore, traceMore⟩ := grown
  obtain rfl : stop = .fault .unwritable := Except.error.inj (ended.symm.trans stopped)
  refine ⟨tracing, rfl, ⟨rest ++ restMore, ?_⟩, told, more ++ toldMore, highTraced, ?_⟩
  · rw [outputMore, output, String.append_assoc]
  · rw [traceMore, lowTraced, level, Array.append_assoc, ← heard_append, Array.append_assoc]

/-- One action behind another is only observed when both are. -/
theorem Observed.bind {action : Run ν α} {next : α → Run ν β} (first : Observed action)
    (occupying : Occupying action) (rest : ∀ value, Observed (next value)) :
    Observed (action >>= next) := by
  refine ⟨grows_bind first.grows fun value => (rest value).grows, ?_⟩
  intro machine occupied low high lowTrace highTrace below
  have lower := first.grows (machine.tracing low lowTrace)
  rw [run_bind, run_bind]
  rcases first.compares machine occupied low high lowTrace highTrace below with
    ⟨result, middle, told, lowRan, highRan⟩ | cut
  · rw [lowRan, highRan]
    cases result with
    | error stop => exact .inl ⟨.error stop, middle, told, rfl, rfl⟩
    | ok value =>
      have still : 0 < middle.environment.scopes.size :=
        occupying (machine.tracing low lowTrace) occupied value
          (middle.tracing low (lowTrace ++ heard low told)) lowRan
      rcases (rest value).compares middle still low high (lowTrace ++ heard low told)
        (highTrace ++ heard high told) below with ⟨outcome, after, more, lowMore, highMore⟩ | cut
      · refine .inl ⟨outcome, after, told ++ more, ?_, ?_⟩
        · rw [heard_append, ← Array.append_assoc]
          exact lowMore
        · rw [heard_append, ← Array.append_assoc]
          exact highMore
      · obtain ⟨tracing, stopped, output, further, more, highTraced, lowTraced⟩ := cut
        refine .inr ⟨tracing, stopped, output, told ++ further, more, ?_, ?_⟩
        · rw [heard_append, ← Array.append_assoc]
          exact highTraced
        · rw [Array.append_assoc, heard_append, ← Array.append_assoc]
          exact lowTraced
  · cases highRan : action.run (machine.tracing high highTrace) with
    | mk highResult highMiddle =>
      rw [highRan] at cut
      obtain rfl := cut.stopped
      right
      cases lowRan : action.run (machine.tracing low lowTrace) with
      | mk lowResult lowMiddle =>
        rw [lowRan] at cut lower
        cases lowResult with
        | error stop => exact cut.further lower.detail (.refl lowMiddle) rfl
        | ok value => exact cut.further lower.detail ((rest value).grows lowMiddle) rfl

/-- What is done in a scope of its own is done there, and the scope is closed behind it. -/
theorem run_inScope {parent : Option Nat} {body : Run ν β} {machine after : Machine ν}
    {result : Except Stop β}
    (inside : body.run { machine with environment := machine.environment.openScope parent } =
      (result, after)) :
    (Run.inScope parent body).run machine =
      match after.environment.closeScope (machine.environment.openScope parent).current with
      | .ok environment => (result, { after with environment := environment })
      | .error fault => (.error (.fault (.scope fault)), after) := by
  change body _ = _ at inside
  cases closed : after.environment.closeScope (machine.environment.openScope parent).current with
  | ok environment => simp only [Run.inScope, ExceptT.run_mk, inside, closed]
  | error fault => simp only [Run.inScope, ExceptT.run_mk, inside, closed]

/-- What is done in a scope of its own writes what it writes. -/
theorem inScope_written {parent : Option Nat} {body : Run ν β} {machine after : Machine ν}
    {result : Except Stop β}
    (inside : body.run { machine with environment := machine.environment.openScope parent } =
      (result, after)) :
    ((Run.inScope parent body).run machine).2.detail = after.detail ∧
      ((Run.inScope parent body).run machine).2.output = after.output ∧
      ((Run.inScope parent body).run machine).2.trace = after.trace := by
  rw [run_inScope inside]
  split
  · exact ⟨rfl, rfl, rfl⟩
  · exact ⟨rfl, rfl, rfl⟩

/-- What is confined and stops in a scope of its own stops so. -/
theorem inScope_stopped {allowed : List (Variable Unit) → Prop} {parent : Option Nat}
    {body : Run ν β} {machine after : Machine ν} {stop : Stop} (confined : Confined allowed body)
    (occupied : 0 < machine.environment.scopes.size)
    (inside : body.run { machine with environment := machine.environment.openScope parent } =
      (.error stop, after)) :
    ((Run.inScope parent body).run machine).1 = .error stop := by
  have opened : 0 < (machine.environment.openScope parent).scopes.size := by
    simp [Environment.openScope]
  obtain ⟨-, gained, -, gains⟩ := (confined _ opened).error inside
  obtain ⟨environment, closed, -⟩ := gains.close occupied
  rw [run_inScope inside, closed]

/-- A scope is opened and closed alike at all levels of detail. -/
theorem Observed.inScope {allowed : List (Variable Unit) → Prop} {body : Run ν β}
    (parent : Option Nat) (confined : Confined allowed body) (observed : Observed body) :
    Observed (Run.inScope parent body) := by
  constructor
  · intro machine
    have grown :=
      observed.grows { machine with environment := machine.environment.openScope parent }
    cases inside : body.run
        { machine with environment := machine.environment.openScope parent } with
    | mk result after =>
      rw [inside] at grown
      obtain ⟨inner, ⟨rest, more⟩, told, traced⟩ := grown
      obtain ⟨detail, output, trace⟩ := inScope_written inside
      exact ⟨detail.trans inner, ⟨rest, output.trans more⟩, told, trace.trans traced⟩
  · intro machine occupied low high lowTrace highTrace below
    have opened : 0 < (machine.environment.openScope parent).scopes.size := by
      simp [Environment.openScope]
    rcases observed.compares { machine with environment := machine.environment.openScope parent }
      opened low high lowTrace highTrace below with ⟨result, after, told, lowRan, highRan⟩ | cut
    · left
      have lowClosed := @run_inScope _ _ parent body (machine.tracing low lowTrace) _ _ lowRan
      have highClosed := @run_inScope _ _ parent body (machine.tracing high highTrace) _ _ highRan
      simp only [Machine.tracing_environment] at lowClosed highClosed
      rw [lowClosed, highClosed]
      cases after.environment.closeScope (machine.environment.openScope parent).current with
      | ok environment =>
        exact ⟨result, { after with environment := environment }, told, rfl, rfl⟩
      | error fault => exact ⟨.error (.fault (.scope fault)), after, told, rfl, rfl⟩
    · right
      cases lowRan : body.run ({ machine with
          environment := machine.environment.openScope parent }.tracing low lowTrace) with
      | mk lowResult lowAfter =>
        cases highRan : body.run ({ machine with
            environment := machine.environment.openScope parent }.tracing high highTrace) with
        | mk highResult highAfter =>
          rw [lowRan, highRan] at cut
          obtain ⟨tracing, rfl, ⟨rest, output⟩, told, more, highTraced, lowTraced⟩ := cut
          obtain ⟨-, lowOutput, lowKept⟩ :=
            @inScope_written _ _ parent body (machine.tracing low lowTrace) _ _ lowRan
          obtain ⟨-, highOutput, highKept⟩ :=
            @inScope_written _ _ parent body (machine.tracing high highTrace) _ _ highRan
          have stopped : ((Run.inScope parent body).run (machine.tracing high highTrace)).1 =
              .error (.fault .unwritable) :=
            inScope_stopped confined occupied highRan
          refine ⟨tracing, stopped, ⟨rest, ?_⟩, told, more, highKept.trans highTraced,
            lowKept.trans lowTraced⟩
          rw [lowOutput, highOutput]
          exact output

/-! ## Runs -/

/-- A part of a run that is confined, and that tracing only observes. -/
structure Followed (allowed : List (Variable Unit) → Prop) (action : Run ν β) : Prop where
  confined : Confined allowed action
  observed : Observed action

/-- Parts behind one another are followed. -/
theorem Followed.bind {allowed : List (Variable Unit) → Prop} {action : Run ν α}
    {next : α → Run ν β}
    (together : ∀ gained more, allowed gained → allowed more → allowed (gained ++ more))
    (first : Followed allowed action) (rest : ∀ value, Followed allowed (next value)) :
    Followed allowed (action >>= next) where
  confined := first.confined.bind together fun value => (rest value).confined
  observed := first.observed.bind first.confined.occupying fun value => (rest value).observed

end Blockscript.Running
