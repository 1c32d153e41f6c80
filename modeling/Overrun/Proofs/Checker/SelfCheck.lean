import Overrun.Proofs.Checker.Faulting
import Overrun.Proofs.Checker.Retuning

/-! No run of a checker ends with the complaint that its state contradicts itself. The search for
contradictions finds none, and no other step of an operation complains of any. -/

namespace Overrun

namespace Checker

theorem WellFormed.uncomplaining_run {c : Checker} (wf : c.WellFormed)
    (ops : List (Environment × Operation)) (violations : Nat) (first : Violation) :
    c.run ops ≠ .error (.inconsistent violations first) := by
  intro complained
  have quiet := wf.run_faults ops _ complained
  contradiction

/-- In every state of every run nothing contradicts anything, so a search for contradictions comes back
empty and never ends a run. How often it is made is therefore of no consequence. -/
theorem run_consistent (config : Config) (target : Target) (ops : List (Environment × Operation))
    (level : Level) (deep : Bool) :
    (∀ c replies, (initial config target).run ops = .ok (c, replies) →
      c.Consistent ∧ c.audit = []) ∧
    (∀ violations first,
      (initial config target).run ops ≠ .error (.inconsistent violations first)) ∧
    (initial { config with level := level, deepChecks := deep } target).run ops =
      ((initial config target).run ops).map fun (c, replies) =>
        (c.retuned level deep, replies) := by
  have wf := wellFormed_initial config target
  refine ⟨fun c replies ran => ?_, wf.uncomplaining_run ops, wf.run_retuned ops⟩
  have consistent := ((Reachable.initial config target).run ran).wellFormed.consistent
  exact ⟨consistent, consistent.audit⟩

end Checker

end Overrun
