import Overrun.Proofs.Checker.Isolation
import Overrun.Proofs.Checker.Logging

/-! Some settings, and how much the report holds, are read by nothing that a checker decides by. With
such settings and reports changed all along, a run goes the same way. It logs the same and gives the same
replies, but for the diagnostics it hands over. -/

namespace Overrun

/-- Another way to fit out a checker: what becomes of its settings, of its report and of the diagnostics
it hands over. No operation can tell. -/
structure Refit where
  settings : Config → Config
  report : Report → Report
  taken : List Diagnostic → List Diagnostic
  Suits : Config → Prop
  arraysOnly : ∀ config, (settings config).arraysOnly = config.arraysOnly
  suppressEpilogues : ∀ config, (settings config).suppressEpilogues = config.suppressEpilogues
  recentHits : ∀ config, (settings config).recentHits = config.recentHits
  report_empty : report ∅ = ∅
  diagnostics_report : ∀ r, (report r).diagnostics = taken r.diagnostics
  total_report : ∀ r, (report r).total = r.total
  report_push : ∀ config, Suits config → ∀ r d,
    report (r.push config.maxDiagnostics d) = (report r).push (settings config).maxDiagnostics d

theorem Report.isEmpty_eq (r : Report) : r.isEmpty = (r.total == 0) := by
  obtain ⟨diagnostics, dropped⟩ := r
  cases diagnostics <;> simp [isEmpty, total]

namespace Refit

def checker (f : Refit) (c : Checker) : Checker :=
  { c with config := f.settings c.config, report := f.report c.report }

def reply (f : Refit) : Reply → Reply
  | .diagnostics taken => .diagnostics (f.taken taken)
  | other => other

def outcome (f : Refit) (o : Outcome Reply) : Outcome Reply :=
  ⟨f.reply o.value, f.checker o.checker, o.events⟩

theorem recasts (f : Refit) : Checker.Recasts f.checker :=
  ⟨fun c => ⟨rfl, f.arraysOnly c.config, f.suppressEpilogues c.config⟩, fun _ _ => rfl⟩

end Refit

namespace Checker

variable (f : Refit) {c : Checker} {tid : ThreadId}

theorem WellFormed.refit (wf : c.WellFormed) : (f.checker c).WellFormed :=
  wf.congr rfl rfl

theorem thread?_refit : (f.checker c).thread? tid = c.thread? tid := rfl

theorem createThread_refit (parent : Option ThreadId) (child : ThreadId) :
    (f.checker c).createThread parent child =
      (c.createThread parent child).map (Outcome.recast f.checker) := by
  unfold createThread
  show (if child.index < c.threads.length then _ else _) = _
  split
  · dsimp only [Refit.checker]
    rw [f.recentHits]
    rfl
  · rfl

theorem startThread_refit (tid : ThreadId) (sp : UInt64) :
    (f.checker c).startThread tid sp = (c.startThread tid sp).map (Outcome.recast f.checker) := by
  apply bind_eq_map_bind
  intro t found
  rfl

theorem exitThread_refit (tid : ThreadId) :
    (f.checker c).exitThread tid = (c.exitThread tid).recast f.checker := by
  unfold exitThread
  rw [thread?_refit]
  cases c.thread? tid <;> rfl

theorem WellFormed.call_refit (wf : c.WellFormed) (tid : ThreadId) (hook : CallHook) :
    (f.checker c).call tid hook = (c.call tid hook).map (Outcome.recast f.checker) := by
  rw [call_eq, call_eq]
  apply bind_eq_map_bind
  intro t found
  apply bind_eq_map_bind
  intro blocks known
  apply bind_eq_map_bind
  intro called calling
  rw [((wf.refit f).afterCall found calling).checked, (wf.afterCall found calling).checked]
  rfl

theorem WellFormed.unwind_refit (wf : c.WellFormed) (tid : ThreadId) (sp : UInt64) :
    (f.checker c).unwind tid sp = (c.unwind tid sp).map (Outcome.recast f.checker) := by
  rw [unwind_eq, unwind_eq]
  apply bind_eq_map_bind
  intro t found
  apply bind_eq_map_bind
  intro unwound unwinding
  by_cases popped : unwound.popped > 0
  · simp only [if_pos popped]
    rw [((wf.refit f).afterUnwind found unwinding).checked,
      (wf.afterUnwind found unwinding).checked]
    rfl
  · simp only [if_neg popped]
    rfl

theorem WellFormed.loadGlobals_refit (wf : c.WellFormed) (env : Environment) (handle : UInt64) :
    (f.checker c).loadGlobals env handle =
      (c.loadGlobals env handle).map (Outcome.recast f.checker) := by
  have registered := fun blocks => f.recasts.registerGlobals c blocks
  have loaded : ∀ blocks, (f.checker c).afterLoad blocks = f.checker (c.afterLoad blocks) := by
    intro blocks
    unfold Checker.afterLoad
    rw [registered]
    rfl
  rw [loadGlobals_eq, loadGlobals_eq]
  dsimp only
  rw [((wf.refit f).afterLoad _).checked, (wf.afterLoad _).checked, loaded, registered]
  dsimp only [Refit.checker]
  rw [f.arraysOnly]
  rfl

theorem WellFormed.unmap_refit (wf : c.WellFormed) (region : Span) :
    (f.checker c).unmap region = (c.unmap region).map (Outcome.recast f.checker) := by
  cases fits : Interval.clamped? region.start region.size with
  | none =>
    rw [unmap_nowhere fits, unmap_nowhere fits]
    rfl
  | some range =>
    cases spared : (c.globals.takeRange range).1.isEmpty with
    | true =>
      rw [unmap_spared fits spared, @unmap_spared (f.checker c) _ _ fits spared]
      rfl
    | false =>
      rw [unmap_eq fits spared, @unmap_eq (f.checker c) _ _ fits spared,
        ((wf.refit f).afterUnmap range).checked, (wf.afterUnmap range).checked]
      rfl

theorem classify_refit (tid : ThreadId) (access : Access) (vector : VectorRef) :
    (f.checker c).classify tid access vector =
      (c.classify tid access vector).map (Outcome.recast f.checker) := by
  rw [classify_eq, classify_eq]
  apply bind_eq_map_bind
  intro t found
  apply bind_eq_map_bind
  intro blocks known
  rfl

theorem reportVerdict_refit (suits : f.Suits c.config) (env : Environment) (tid : ThreadId)
    (depth : Nat) (hook : AccessHook) (learned fresh : Invariant) :
    (f.checker c).reportVerdict env tid depth hook learned fresh =
      (c.reportVerdict env tid depth hook learned fresh).map (Outcome.recast f.checker) := by
  unfold reportVerdict
  cases learned.judge fresh with
  | mismatched =>
    apply bind_eq_map_bind
    intro d diagnosed
    have pushed := f.report_push c.config suits c.report d
    show Except.ok _ = Except.ok _
    unfold Outcome.recast Refit.checker
    dsimp only
    rw [pushed]
  | _ => rfl

theorem access_refit (suits : f.Suits c.config) (env : Environment) (tid : ThreadId)
    (hook : AccessHook) :
    (f.checker c).access env tid hook =
      (c.access env tid hook).map (Outcome.recast f.checker) := by
  rw [access_eq, access_eq]
  apply bind_eq_map_bind
  intro t found
  apply bind_eq_map_bind
  intro blocks known
  apply bind_eq_map_bind
  intro l located
  exact @reportVerdict_refit f (c.afterAccess tid _ l) suits _ _ _ _ _ _

theorem takeDiagnostics_refit :
    (f.checker c).takeDiagnostics =
      ⟨f.taken c.report.diagnostics, f.checker { c with report := ∅ }, []⟩ := by
  rw [← f.diagnostics_report]
  unfold Refit.checker
  dsimp only
  rw [f.report_empty]
  rfl

theorem summarize_refit : (f.checker c).summarize = c.summarize.recast f.checker := by
  have total := f.total_report c.report
  have empty : (f.report c.report).isEmpty = c.report.isEmpty := by
    rw [Report.isEmpty_eq, Report.isEmpty_eq, total]
  show (⟨c.statistics, f.checker c, .summarized c.statistics ::
    if (f.report c.report).isEmpty then [] else [.errorsDetected (f.report c.report).total]⟩ :
      Outcome Statistics) = _
  rw [empty, total]
  rfl

theorem outcome_refit {α : Type} {o p : Outcome α} (g : α → Reply)
    (kept : ∀ a, f.reply (g a) = g a) (same : p = o.recast f.checker) :
    p.map g = f.outcome (o.map g) := by
  rw [same]
  unfold Refit.outcome Outcome.map Outcome.recast
  dsimp only
  rw [kept]

theorem map_refit {α : Type} {x y : Except Fault (Outcome α)} (g : α → Reply)
    (kept : ∀ a, f.reply (g a) = g a) (same : y = x.map (Outcome.recast f.checker)) :
    y.map (·.map g) = (x.map (·.map g)).map f.outcome := by
  rw [same]
  cases x with
  | error fault => rfl
  | ok o => exact congrArg Except.ok (outcome_refit f g kept rfl)

/-- An operation of a refitted checker is that operation of the checker, refitted. -/
theorem WellFormed.step_refit (wf : c.WellFormed) (suits : f.Suits c.config) (env : Environment)
    (op : Operation) : (f.checker c).step env op = (c.step env op).map f.outcome := by
  have plain : ∀ done : Unit, f.reply ((fun () => .done) done) = .done := fun _ => rfl
  cases op with
  | createThread parent child => exact map_refit f _ plain (createThread_refit f parent child)
  | startThread tid sp => exact map_refit f _ plain (startThread_refit f tid sp)
  | exitThread tid =>
    exact congrArg Except.ok (outcome_refit f _ plain (exitThread_refit f tid))
  | call tid hook => exact map_refit f _ plain (wf.call_refit f tid hook)
  | unwind tid sp => exact map_refit f _ plain (wf.unwind_refit f tid sp)
  | access tid hook => exact map_refit f _ plain (access_refit f suits env tid hook)
  | classify tid access vector =>
    exact map_refit f _ (fun _ => rfl) (classify_refit f tid access vector)
  | loadGlobals handle => exact map_refit f _ plain (wf.loadGlobals_refit f env handle)
  | unmap region => exact map_refit f _ plain (wf.unmap_refit f region)
  | internVector blocks => rfl
  | vectorAt instruction =>
    exact congrArg Except.ok (outcome_refit f _ (fun _ => rfl) (f.recasts.vectorAt c instruction))
  | instrument block layout hooks =>
    unfold Checker.step
    dsimp only
    rw [f.recasts.instrument]
    cases c.instrument env block layout hooks <;> rfl
  | takeDiagnostics =>
    exact congrArg (fun o => Except.ok (o.map Reply.diagnostics)) (takeDiagnostics_refit f)
  | summarize => exact congrArg Except.ok (outcome_refit f _ (fun _ => rfl) (summarize_refit f))

theorem WellFormed.step_suits (wf : c.WellFormed) (suits : f.Suits c.config) {env : Environment}
    {op : Operation} {o : Outcome Reply} (stepped : c.step env op = .ok o) :
    f.Suits o.checker.config := by
  rw [(wf.step_changed stepped).settings.1]
  exact suits

theorem WellFormed.run_refit (wf : c.WellFormed) (suits : f.Suits c.config)
    (ops : List (Environment × Operation)) :
    (f.checker c).run ops =
      (c.run ops).map fun (last, replies) => (f.checker last, replies.map f.reply) := by
  induction ops generalizing c with
  | nil => rfl
  | cons first rest ih =>
    unfold Checker.run
    rw [wf.step_refit f suits]
    cases stepped : c.step first.1 first.2 with
    | error fault => rfl
    | ok o =>
      show ((f.checker o.checker).run rest >>= _) = _
      rw [ih (wf.step stepped) (wf.step_suits f suits stepped)]
      show _ = (o.checker.run rest >>= _ : Except Fault _).map _
      cases o.checker.run rest <;> rfl

theorem WellFormed.log_refit (wf : c.WellFormed) (suits : f.Suits c.config)
    (ops : List (Environment × Operation)) : (f.checker c).log ops = c.log ops := by
  induction ops generalizing c with
  | nil => rfl
  | cons first rest ih =>
    unfold Checker.log
    rw [wf.step_refit f suits]
    cases stepped : c.step first.1 first.2 with
    | error fault => rfl
    | ok o =>
      exact congrArg (o.events ++ ·) (ih (wf.step stepped) (wf.step_suits f suits stepped))

end Checker

end Overrun
