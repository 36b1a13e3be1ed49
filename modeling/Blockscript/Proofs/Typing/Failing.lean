import Blockscript.Proofs.Typing.Passing

/-!
# Checks that fail

A check that fails gives a fault and leaves a state, in which every scope that was opened
on the way is closed again. For each way of putting checks together there is a law that says
how the whole fails when a part does. A check passes or fails, and with one outcome.
-/

namespace Blockscript.Typing

variable {α β : Type} {before after : Checker} {value : α} {fault : TypeFault}

/-- The check fails with the fault, and leaves the state. -/
def Check.Fails (check : Check α) (before : Checker) (fault : TypeFault) (after : Checker) :
    Prop :=
  check.run before = (.error fault, after)

/-- A fault fails as it is. -/
theorem throw_fails : (throw fault : Check α).Fails before fault before :=
  rfl

/-- A rule fails with its own fault. -/
theorem rule_fails {outcome : Except TypeFault α} (failed : outcome = .error fault) :
    (Check.rule outcome).Fails before fault before := by
  rw [failed]
  rfl

/-- A check that passes does so with one value and one state. -/
theorem passes_unique {check : Check α} {other : α} {left : Checker}
    (passes : check.Passes before value after) (again : check.Passes before other left) :
    value = other ∧ after = left := by
  obtain ⟨same, rfl⟩ := Prod.mk.inj (passes.symm.trans again)
  exact ⟨Except.ok.inj same, rfl⟩

/-- A check that fails does so with one fault. -/
theorem fails_unique {check : Check α} {other : TypeFault} {left : Checker}
    (fails : check.Fails before fault after) (again : check.Fails before other left) :
    fault = other :=
  Except.error.inj (Prod.mk.inj (fails.symm.trans again)).1

/-- A check that passes does not fail. -/
theorem not_fails_of_passes {check : Check α} {left : Checker}
    (passes : check.Passes before value after) : ¬ check.Fails before fault left := by
  intro fails
  cases passes.symm.trans fails

/-- Of two checks the first one fails, or it passes and the second one fails. -/
theorem bind_fails {check : Check α} {next : α → Check β}
    (fails : check.Fails before fault after ∨
      ∃ first middle, check.Passes before first middle ∧ (next first).Fails middle fault after) :
    (check >>= next).Fails before fault after := by
  unfold Check.Fails Check.Passes at *
  rw [Check.run_bind]
  rcases fails with failed | ⟨first, middle, passed, failed⟩
  · rw [failed]
  · rw [passed]
    exact failed

/-- A check that fails in a scope of its own has that scope closed behind it. -/
theorem inScope_fails {body : Check α} {inside : Checker} {environment : Environment Unit Unit}
    (fails : body.Fails { before with environment := before.environment.openScope none } fault
      inside)
    (closed : inside.environment.closeScope (before.environment.openScope none).current =
      .ok environment) :
    (Check.inScope body).Fails before fault { inside with environment := environment } := by
  unfold Check.Fails Check.inScope at *
  simp only [ExceptT.run_mk]
  change body _ = _ at fails
  simp only [fails, closed]

/-- A check that fails in the context of a function leaves the context before. -/
theorem inFunction_fails {declared : Option Ty} {body : Check α} {inside : Checker}
    (fails : body.Fails { before with returns := ⟨declared, none⟩ } fault inside) :
    (Check.inFunction declared body).Fails before fault
      { inside with returns := before.returns } := by
  unfold Check.Fails Check.inFunction at *
  simp only [ExceptT.run_mk]
  change body _ = _ at fails
  simp only [fails]
  rfl

end Blockscript.Typing
