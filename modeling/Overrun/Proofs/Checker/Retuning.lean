import Overrun.Proofs.Checker.Refitting

/-! A checker that watches itself more closely, or less, does the same. The two settings for it are read
by nothing but the search for contradictions, and that search finds none. -/

namespace Overrun

namespace Checker

/-- The same state, watched more or less closely from now on. -/
def retuned (level : Level) (deep : Bool) (c : Checker) : Checker :=
  { c with config := { c.config with level := level, deepChecks := deep } }

end Checker

def Refit.retuning (level : Level) (deep : Bool) : Refit where
  settings config := { config with level := level, deepChecks := deep }
  report r := r
  taken diagnostics := diagnostics
  Suits _ := True
  arraysOnly _ := rfl
  suppressEpilogues _ := rfl
  recentHits _ := rfl
  report_empty := rfl
  diagnostics_report _ := rfl
  total_report _ := rfl
  report_push _ _ _ _ := rfl

theorem Refit.reply_retuning (level : Level) (deep : Bool) (reply : Reply) :
    (retuning level deep).reply reply = reply := by
  cases reply <;> rfl

namespace Checker.WellFormed

variable {c : Checker} {level : Level} {deep : Bool}

/-- A run of a retuned checker has the same replies or the same fault, and ends in the same state but
for the settings. -/
theorem run_retuned (wf : c.WellFormed) (ops : List (Environment × Operation)) :
    (c.retuned level deep).run ops =
      (c.run ops).map fun (last, replies) => (last.retuned level deep, replies) := by
  have same : ∀ replies : List Reply, replies.map (Refit.retuning level deep).reply = replies :=
    fun replies => List.map_id'' (Refit.reply_retuning level deep) replies
  have run := wf.run_refit (.retuning level deep) trivial ops
  simp only [same] at run
  exact run

end Checker.WellFormed

end Overrun
