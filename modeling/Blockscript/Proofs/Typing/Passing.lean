import Blockscript.Typing.Program

/-!
# Checks that pass

A check that passes gives a value and leaves a state. Every way of putting checks
together has one law that says when the whole passes; so what a passed check of
the checker means is found by rewriting, part by part.
-/

namespace Blockscript.Typing

variable {α β : Type} {before after : Checker}

/-- The check passes with the value, and leaves the state. -/
def Check.Passes (check : Check α) (before : Checker) (value : α) (after : Checker) : Prop :=
  check.run before = (.ok value, after)

/-- To give a value passes with it, and without a change. -/
@[simp] theorem pure_passes {given value : α} :
    (pure given : Check α).Passes before value after ↔ value = given ∧ after = before := by
  change ((.ok given, before) : Except TypeFault α × Checker) = (.ok value, after) ↔ _
  simp only [Prod.mk.injEq, Except.ok.injEq]
  constructor
  · rintro ⟨rfl, rfl⟩
    exact ⟨rfl, rfl⟩
  · rintro ⟨rfl, rfl⟩
    exact ⟨rfl, rfl⟩

/-- A fault does not pass. -/
@[simp] theorem throw_passes {fault : TypeFault} {value : α} :
    (throw fault : Check α).Passes before value after ↔ False := by
  change ((.error fault, before) : Except TypeFault α × Checker) = (.ok value, after) ↔ _
  simp

/-- Of two checks the second one goes on from what the first one gives and leaves. -/
theorem Check.run_bind (check : Check α) (next : α → Check β) (before : Checker) :
    (check >>= next).run before =
      match check.run before with
      | (.ok first, middle) => (next first).run middle
      | (.error fault, middle) => (.error fault, middle) := by
  change ExceptT.bindCont next (check.run before).1 (check.run before).2 = _
  cases check.run before with
  | mk outcome middle => cases outcome <;> rfl

/-- Two checks in order pass when the second one does where the first one has passed to. -/
@[simp] theorem bind_passes {check : Check α} {next : α → Check β} {value : β} :
    (check >>= next).Passes before value after ↔
      ∃ first middle, check.Passes before first middle ∧
        (next first).Passes middle value after := by
  unfold Check.Passes
  rw [Check.run_bind]
  constructor
  · intro passes
    split at passes
    · next first middle outcome => exact ⟨first, middle, outcome, passes⟩
    · cases passes
  · rintro ⟨first, middle, outcome, passes⟩
    rw [outcome]
    exact passes

/-- A check whose value is dropped. -/
@[simp] theorem discard_passes {check : Check α} {done : PUnit} :
    (discard check).Passes before done after ↔ ∃ value, check.Passes before value after := by
  have dropped : discard check = check >>= fun _ => pure ⟨⟩ := by
    rw [discard, map_const, Function.comp_apply, map_eq_pure_bind]
  rw [dropped, bind_passes]
  constructor
  · rintro ⟨value, _, passes, ends⟩
    obtain ⟨_, rfl⟩ := pure_passes.mp ends
    exact ⟨value, passes⟩
  · rintro ⟨value, passes⟩
    exact ⟨value, after, passes, pure_passes.mpr ⟨rfl, rfl⟩⟩

/-- To look at the state passes with it, and without a change. -/
@[simp] theorem get_passes {checker : Checker} :
    (get : Check Checker).Passes before checker after ↔ checker = before ∧ after = before := by
  change ((.ok before, before) : Except TypeFault Checker × Checker) = (.ok checker, after) ↔ _
  simp only [Prod.mk.injEq, Except.ok.injEq]
  constructor
  · rintro ⟨rfl, rfl⟩
    exact ⟨rfl, rfl⟩
  · rintro ⟨rfl, rfl⟩
    exact ⟨rfl, rfl⟩

/-- To set the state passes to the new one. -/
@[simp] theorem set_passes {checker : Checker} {value : PUnit} :
    (set checker : Check PUnit).Passes before value after ↔ after = checker := by
  change ((.ok ⟨⟩, checker) : Except TypeFault PUnit × Checker) = (.ok value, after) ↔ _
  simp [eq_comm]

/-- A rule passes when its outcome does, and without a change. -/
@[simp] theorem rule_passes {outcome : Except TypeFault α} {value : α} :
    (Check.rule outcome).Passes before value after ↔ outcome = .ok value ∧ after = before := by
  cases outcome with
  | ok given => simp [Check.rule, eq_comm]
  | error fault => simp [Check.rule]

/-- A lookup passes with what is found, and without a change. -/
@[simp] theorem lookup_passes {find : Environment Unit Unit → Except ScopeFault α} {value : α} :
    (Check.lookup find).Passes before value after ↔
      find before.environment = .ok value ∧ after = before := by
  simp only [Check.lookup, bind_passes, get_passes]
  constructor
  · rintro ⟨_, _, ⟨rfl, rfl⟩, passes⟩
    split at passes
    · next found outcome =>
      obtain ⟨rfl, rfl⟩ := pure_passes.mp passes
      exact ⟨outcome, rfl⟩
    · exact (throw_passes.mp passes).elim
  · rintro ⟨outcome, rfl⟩
    refine ⟨after, after, ⟨rfl, rfl⟩, ?_⟩
    rw [outcome]
    exact pure_passes.mpr ⟨rfl, rfl⟩

/-- A change of the scopes passes to the changed ones. -/
@[simp] theorem change_passes
    {step : Environment Unit Unit → Except ScopeFault (Environment Unit Unit)} {value : Unit} :
    (Check.change step).Passes before value after ↔
      ∃ environment, step before.environment = .ok environment ∧
        after = { before with environment := environment } := by
  simp only [Check.change, bind_passes, get_passes]
  constructor
  · rintro ⟨_, _, ⟨rfl, rfl⟩, passes⟩
    split at passes
    · next environment outcome => exact ⟨environment, outcome, set_passes.mp passes⟩
    · exact (throw_passes.mp passes).elim
  · rintro ⟨environment, outcome, rfl⟩
    refine ⟨before, before, ⟨rfl, rfl⟩, ?_⟩
    rw [outcome]
    exact set_passes.mpr rfl

/-- A definition gives the variable and adds it to the scopes. -/
@[simp] theorem define_passes {name : String} {type : Ty} {mutable : Bool}
    {entry : Variable Unit} :
    (Check.define name type mutable).Passes before entry after ↔
      entry = ⟨name, type, mutable, ()⟩ ∧
        ∃ environment, before.environment.defineVariable entry = .ok environment ∧
          after = { before with environment := environment } := by
  simp only [Check.define, bind_passes, change_passes, pure_passes]
  constructor
  · rintro ⟨_, _, ⟨environment, outcome, rfl⟩, rfl, rfl⟩
    exact ⟨rfl, environment, outcome, rfl⟩
  · rintro ⟨rfl, environment, outcome, rfl⟩
    exact ⟨(), _, ⟨environment, outcome, rfl⟩, rfl, rfl⟩

/-- A check in a scope of its own passes when it passes in there and the scope can
be closed behind it. -/
theorem inScope_passes {body : Check α} {value : α} :
    (Check.inScope body).Passes before value after ↔
      ∃ inside environment,
        body.Passes { before with environment := before.environment.openScope none } value
          inside ∧
        inside.environment.closeScope (before.environment.openScope none).current =
          .ok environment ∧
        after = { inside with environment := environment } := by
  unfold Check.Passes Check.inScope
  simp only [ExceptT.run_mk]
  cases outcome : body { before with environment := before.environment.openScope none } with
  | mk result inside =>
    dsimp only
    constructor
    · intro passes
      split at passes
      · next closed =>
        cases passes
        exact ⟨inside, _, outcome, closed, rfl⟩
      · cases passes
    · rintro ⟨other, environment, same, closed, rfl⟩
      change body _ = _ at same
      rw [outcome] at same
      cases same
      simp only [closed]

/-- A check in the context of a function returns to the context before, whatever
it has inferred. -/
theorem inFunction_passes {declared : Option Ty} {body : Check α} {value : α}
    {inferred : Option Ty} :
    (Check.inFunction declared body).Passes before (value, inferred) after ↔
      ∃ inside, body.Passes { before with returns := ⟨declared, none⟩ } value inside ∧
        inferred = inside.returns.inferred ∧ after = { inside with returns := before.returns } := by
  unfold Check.Passes Check.inFunction
  simp only [ExceptT.run_mk]
  cases outcome : body { before with returns := ⟨declared, none⟩ } with
  | mk result inside =>
    constructor
    · intro passes
      cases result with
      | error fault => cases passes
      | ok given =>
        cases passes
        exact ⟨inside, outcome, rfl, rfl⟩
    · rintro ⟨other, same, rfl, rfl⟩
      change body _ = _ at same
      rw [outcome] at same
      cases same
      rfl

/-- A check behind a condition that throws otherwise. -/
theorem ite_passes {condition : Prop} [Decidable condition] {first second : Check α} {value : α} :
    (if condition then first else second).Passes before value after ↔
      (condition ∧ first.Passes before value after) ∨
        (¬ condition ∧ second.Passes before value after) := by
  split
  · next holds => simp [holds]
  · next fails => simp [fails]

/-- A program is accepted when it passes from the initial state on. -/
theorem check_iff {source : Program .bare} {tree : Program .checked} {checker : Checker} :
    check source = .ok (tree, checker) ↔
      (checkProgram source).Passes Checker.initial tree checker := by
  unfold check Check.Passes
  split
  · next outcome =>
    rw [outcome]
    constructor
    · rintro ⟨⟩
      rfl
    · rintro ⟨⟩
      rfl
  · next outcome =>
    rw [outcome]
    constructor
    · rintro ⟨⟩
    · rintro ⟨⟩

end Blockscript.Typing
