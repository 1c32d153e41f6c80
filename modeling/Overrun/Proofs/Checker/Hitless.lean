import Overrun.Proofs.Checker.Effects
import Overrun.Proofs.Checker.Reachable
import Overrun.Proofs.Checker.Sharing
import Overrun.Proofs.Thread.Hitless

/-! How many recent hits a checker keeps is of no consequence. Taking them away commutes with every
operation, so runs of checkers that keep more or fewer of them differ in the hits themselves and in
the number of searches that those did not save. -/

namespace Overrun

namespace Statistics

/-- The counters if every search among the registered blocks had been a miss. -/
def hitless (s : Statistics) : Statistics :=
  { s with misses := s.queries }

theorem countKind_hitless (s : Statistics) (kind : Invariant.Kind) :
    (s.countKind kind).hitless = s.hitless.countKind kind := by
  cases kind <;> rfl

theorem countVerdict_hitless (s : Statistics) (verdict : Invariant.Verdict) :
    (s.countVerdict verdict).hitless = s.hitless.countVerdict verdict := by
  cases verdict <;> rfl

theorem countAccess_hitless (s : Statistics) (r : Thread.Classified) (learned : Invariant) :
    (s.countAccess r learned).hitless = s.hitless.countAccess r.hitless learned := by
  unfold countAccess
  dsimp only [Thread.Classified.hitless]
  rw [countVerdict_hitless, countKind_hitless, Lookup.queries_hitless, Lookup.misses_hitless]
  rfl

end Statistics

def Reply.hitless : Reply → Reply
  | .statistics s => .statistics s.hitless
  | reply => reply

def Outcome.result {α : Type} (o : Outcome α) : Checker × α :=
  (o.checker, o.value)

namespace Checker

/-- The same state had no thread kept any recent hits. -/
def hitless (c : Checker) : Checker :=
  { c with
    config := { c.config with recentHits := 0 }
    threads := c.threads.map (Option.map Thread.hitless)
    statistics := c.statistics.hitless }

def hitlessRun (result : Checker × List Reply) : Checker × List Reply :=
  (result.1.hitless, result.2.map Reply.hitless)

variable {c : Checker} {tid : ThreadId} {env : Environment}

theorem recasts_hitless : Recasts hitless :=
  ⟨fun _ => ⟨rfl, rfl, rfl⟩, fun _ _ => rfl⟩

theorem thread?_hitless (c : Checker) (tid : ThreadId) :
    c.hitless.thread? tid = (c.thread? tid).map Thread.hitless :=
  thread?_map rfl tid

theorem thread_hitless (c : Checker) (tid : ThreadId) :
    c.hitless.thread tid = (c.thread tid).map Thread.hitless := by
  unfold thread hitless
  dsimp only
  rw [List.getElem?_map]
  cases c.threads[tid.index]? with
  | none => rfl
  | some slot => cases slot <;> rfl

theorem setSlot_hitless (c : Checker) (tid : ThreadId) (slot : Option Thread)
    (statistics : Statistics) :
    ({ c.setSlot tid slot with statistics := statistics } : Checker).hitless =
      { c.hitless.setSlot tid (slot.map Thread.hitless) with statistics := statistics.hitless } := by
  unfold setSlot hitless
  dsimp only
  rw [List.map_set]

theorem WellFormed.hitless (wf : c.WellFormed) : c.hitless.WellFormed := by
  refine ⟨wf.globals, fun tid t found => ?_⟩
  rw [thread?_hitless] at found
  obtain ⟨kept, there, rfl⟩ := Option.map_eq_some_iff.1 found
  exact (wf.threads tid kept there).hitless

theorem createThread_hitless (parent : Option ThreadId) (child : ThreadId) :
    c.hitless.createThread parent child =
      (c.createThread parent child).map (Outcome.recast Checker.hitless) := by
  have slots : c.hitless.threads.length = c.threads.length := List.length_map _
  unfold createThread
  rw [slots]
  split
  · have created := setSlot_hitless c child (some (.initial c.config.recentHits)) c.statistics
    exact congrArg (fun d => Except.ok (⟨(), d, [.threadCreated parent child]⟩ : Outcome Unit))
      created.symm
  · rfl

theorem startThread_hitless (tid : ThreadId) (sp : UInt64) :
    c.hitless.startThread tid sp = (c.startThread tid sp).map (Outcome.recast Checker.hitless) := by
  unfold startThread
  rw [thread_hitless, map_bind]
  apply bind_eq_map_bind
  intro t found
  have started := setSlot_hitless c tid (some { t with stack := t.stack.push (.entered sp 0) })
    { c.statistics with pushed := c.statistics.pushed + 1 }
  exact congrArg (fun d => Except.ok (⟨(), d, [.threadStarted tid sp]⟩ : Outcome Unit))
    started.symm

theorem exitThread_hitless (tid : ThreadId) :
    c.hitless.exitThread tid = (c.exitThread tid).recast Checker.hitless := by
  unfold exitThread
  rw [thread?_hitless]
  cases c.thread? tid with
  | none => rfl
  | some t =>
    have gone := setSlot_hitless c tid none c.statistics
    exact congrArg
      (fun d => (⟨(), d, [.threadExited tid t.depth t.registered.size]⟩ : Outcome Unit)) gone.symm

theorem afterCall_hitless (c : Checker) (tid : ThreadId) (called : Thread.Called) :
    c.hitless.afterCall tid called.hitless = (c.afterCall tid called).hitless :=
  (setSlot_hitless c tid (some called.thread) (c.afterCall tid called).statistics).symm

theorem afterUnwind_hitless (c : Checker) (tid : ThreadId) (u : Thread.Unwound) :
    c.hitless.afterUnwind tid u.hitless = (c.afterUnwind tid u).hitless :=
  (setSlot_hitless c tid (some u.thread) (c.afterUnwind tid u).statistics).symm

theorem afterClassify_hitless (c : Checker) (tid : ThreadId) (r : Thread.Classified) :
    c.hitless.afterClassify tid r.hitless = (c.afterClassify tid r).hitless := by
  refine Eq.trans ?_ (setSlot_hitless c tid (some r.thread) _).symm
  unfold afterClassify
  dsimp only [Thread.Classified.hitless]
  rw [Lookup.queries_hitless, Lookup.misses_hitless]
  rfl

theorem afterAccess_hitless (c : Checker) (tid : ThreadId) (r : Thread.Classified)
    (l : SiteTable.Located) :
    c.hitless.afterAccess tid r.hitless l = (c.afterAccess tid r l).hitless := by
  refine Eq.trans ?_ (setSlot_hitless c tid
    (some (r.thread.withTopSites (l.learn (l.site.invariant.revised r.invariant)))) _).symm
  rw [Statistics.countAccess_hitless]
  rfl

theorem invariants_hitless (c : Checker) : c.hitless.invariants = c.invariants := by
  have live : c.hitless.liveThreads = c.liveThreads.map (Prod.map id Thread.hitless) :=
    liveThreads_map rfl
  unfold invariants
  rw [live, List.flatMap_map]
  rfl

theorem afterUnmap_hitless (c : Checker) (range : Interval) :
    c.hitless.afterUnmap range = (c.afterUnmap range).hitless := by
  unfold afterUnmap
  rw [invariants_hitless]
  unfold hitless
  dsimp only
  rw [List.map_map, List.map_map]
  congr 1
  apply List.map_congr_left
  intro slot member
  cases slot <;> rfl

theorem afterLoad_hitless (c : Checker) (blocks : List GlobalBlock) :
    c.hitless.afterLoad blocks = (c.afterLoad blocks).hitless := by
  unfold afterLoad
  rw [recasts_hitless.registerGlobals]
  rfl

namespace WellFormed

theorem call_hitless (wf : c.WellFormed) (tid : ThreadId) (hook : CallHook) :
    c.hitless.call tid hook = (c.call tid hook).map (Outcome.recast Checker.hitless) := by
  rw [call_eq, call_eq, thread_hitless, map_bind]
  apply bind_eq_map_bind
  intro t found
  apply bind_eq_map_bind
  intro blocks known
  rw [Thread.call_hitless, map_bind]
  apply bind_eq_map_bind
  intro called calling
  have after := wf.afterCall found calling
  rw [afterCall_hitless, after.checked, after.hitless.checked]
  rfl

theorem unwind_hitless (wf : c.WellFormed) (tid : ThreadId) (sp : UInt64) :
    c.hitless.unwind tid sp = (c.unwind tid sp).map (Outcome.recast Checker.hitless) := by
  rw [unwind_eq, unwind_eq, thread_hitless, map_bind]
  apply bind_eq_map_bind
  intro t found
  rw [Thread.unwind_hitless, map_bind]
  apply bind_eq_map_bind
  intro u unwinding
  have after := wf.afterUnwind found unwinding
  rw [afterUnwind_hitless]
  by_cases popped : u.popped > 0
  · have same : u.hitless.popped > 0 := popped
    simp only [if_pos popped, if_pos same]
    rw [after.checked, after.hitless.checked]
    rfl
  · have same : ¬u.hitless.popped > 0 := popped
    simp only [if_neg popped, if_neg same]
    rfl

theorem classify_hitless (wf : c.WellFormed) (tid : ThreadId) (access : Access)
    (vector : VectorRef) :
    c.hitless.classify tid access vector =
      (c.classify tid access vector).map (Outcome.recast Checker.hitless) := by
  rw [classify_eq, classify_eq, thread_hitless, map_bind]
  apply bind_eq_map_bind
  intro t found
  apply bind_eq_map_bind
  intro blocks known
  have threadWf := wf.thread found
  dsimp only
  rw [Thread.classify_hitless threadWf.registered threadWf.cached]
  show Except.ok _ = Except.ok _
  rw [afterClassify_hitless]
  rfl

end WellFormed

theorem reportVerdict_hitless (env : Environment) (depth : Nat) (hook : AccessHook)
    (learned fresh : Invariant) :
    c.hitless.reportVerdict env tid depth hook learned fresh =
      (c.reportVerdict env tid depth hook learned fresh).map (Outcome.recast Checker.hitless) := by
  unfold reportVerdict
  cases learned.judge fresh with
  | mismatched =>
    apply bind_eq_map_bind
    intro d diagnosed
    rfl
  | _ => rfl

namespace WellFormed

theorem access_hitless (wf : c.WellFormed) (env : Environment) (tid : ThreadId)
    (hook : AccessHook) :
    c.hitless.access env tid hook = (c.access env tid hook).map (Outcome.recast Checker.hitless) := by
  rw [access_eq, access_eq, thread_hitless, map_bind]
  apply bind_eq_map_bind
  intro t found
  apply bind_eq_map_bind
  intro blocks known
  have threadWf := wf.thread found
  dsimp only
  rw [Thread.classify_hitless threadWf.registered threadWf.cached]
  apply bind_eq_map_bind
  intro l located
  rw [afterAccess_hitless]
  exact reportVerdict_hitless env _ hook _ _

theorem loadGlobals_hitless (wf : c.WellFormed) (env : Environment) (handle : UInt64) :
    c.hitless.loadGlobals env handle =
      (c.loadGlobals env handle).map (Outcome.recast Checker.hitless) := by
  have after := wf.afterLoad (env.globalBlocksOf handle c.config.arraysOnly)
  rw [loadGlobals_eq, loadGlobals_eq]
  dsimp only
  rw [afterLoad_hitless, after.checked, recasts_hitless.registerGlobals]
  show (do (c.afterLoad (env.globalBlocksOf handle c.config.arraysOnly)).hitless.selfCheck; _) = _
  rw [after.hitless.checked]
  rfl

theorem unmap_hitless (wf : c.WellFormed) (region : Span) :
    c.hitless.unmap region = (c.unmap region).map (Outcome.recast Checker.hitless) := by
  cases fits : Interval.clamped? region.start region.size with
  | none =>
    rw [unmap_nowhere fits, unmap_nowhere fits]
    rfl
  | some range =>
    cases spared : (c.globals.takeRange range).1.isEmpty with
    | true =>
      rw [unmap_spared fits spared, @unmap_spared c.hitless _ _ fits spared]
      rfl
    | false =>
      have after := wf.afterUnmap range
      rw [unmap_eq fits spared, @unmap_eq c.hitless _ _ fits spared, afterUnmap_hitless,
        after.checked, after.hitless.checked, invariants_hitless]
      rfl

end WellFormed

def hitlessStep (result : Checker × Reply) : Checker × Reply :=
  (result.1.hitless, result.2.hitless)

theorem result_hitless {α : Type} {x y : Except Fault (Outcome α)} (f : α → Reply)
    (plain : ∀ a, (f a).hitless = f a) (same : y = x.map (Outcome.recast Checker.hitless)) :
    (y.map (·.map f)).map Outcome.result =
      ((x.map (·.map f)).map Outcome.result).map hitlessStep := by
  rw [same]
  cases x with
  | error fault => rfl
  | ok o =>
    have value := plain o.value
    show Except.ok (o.checker.hitless, f o.value) = .ok (o.checker.hitless, (f o.value).hitless)
    rw [value]

theorem WellFormed.step_hitless (wf : c.WellFormed) (env : Environment) (op : Operation) :
    (c.hitless.step env op).map Outcome.result =
      ((c.step env op).map Outcome.result).map hitlessStep := by
  cases op with
  | createThread parent child =>
    exact result_hitless _ (fun _ => rfl) (createThread_hitless parent child)
  | startThread tid sp => exact result_hitless _ (fun _ => rfl) (startThread_hitless tid sp)
  | exitThread tid =>
    exact result_hitless (x := .ok (c.exitThread tid)) (fun () => .done) (fun _ => rfl)
      (congrArg Except.ok (exitThread_hitless tid))
  | call tid hook => exact result_hitless _ (fun _ => rfl) (wf.call_hitless tid hook)
  | unwind tid sp => exact result_hitless _ (fun _ => rfl) (wf.unwind_hitless tid sp)
  | access tid hook => exact result_hitless _ (fun _ => rfl) (wf.access_hitless env tid hook)
  | classify tid access vector =>
    exact result_hitless _ (fun _ => rfl) (wf.classify_hitless tid access vector)
  | loadGlobals handle =>
    exact result_hitless _ (fun _ => rfl) (wf.loadGlobals_hitless env handle)
  | unmap region => exact result_hitless _ (fun _ => rfl) (wf.unmap_hitless region)
  | internVector blocks => rfl
  | vectorAt instruction =>
    exact result_hitless (x := .ok (c.vectorAt env instruction)) .vector (fun _ => rfl)
      (congrArg Except.ok (recasts_hitless.vectorAt c instruction))
  | instrument block layout hooks =>
    unfold Checker.step
    dsimp only
    rw [recasts_hitless.instrument]
    cases c.instrument env block layout hooks <;> rfl
  | takeDiagnostics => rfl
  | summarize => rfl

theorem run_cons (c : Checker) (env : Environment) (op : Operation)
    (rest : List (Environment × Operation)) :
    c.run ((env, op) :: rest) = ((c.step env op).map Outcome.result >>= fun (next, reply) =>
      (next.run rest).map fun (last, replies) => (last, reply :: replies)) := by
  rw [run]
  cases c.step env op with
  | error fault => rfl
  | ok o =>
    show (o.checker.run rest >>= _) = (o.checker.run rest).map _
    cases o.checker.run rest <;> rfl

theorem WellFormed.run_hitless (wf : c.WellFormed) (ops : List (Environment × Operation)) :
    c.hitless.run ops = (c.run ops).map hitlessRun := by
  induction ops generalizing c with
  | nil => rfl
  | cons first rest ih =>
    obtain ⟨env, op⟩ := first
    rw [run_cons, run_cons, wf.step_hitless]
    cases stepped : c.step env op with
    | error fault => rfl
    | ok o =>
      show (o.checker.hitless.run rest).map _ = ((o.checker.run rest).map _).map _
      rw [ih (wf.step stepped)]
      cases o.checker.run rest <;> rfl

/-- Two checkers that differ in how many recent hits their threads may keep do the same: their runs have
the same replies and the same faults, and lead to states that differ in the hits, and in the number of
searches that those did not save, at most. For a hit is always the entry that a search would find. -/
theorem run_recentHits (config : Config) (capacity : Nat) (target : Target)
    (ops : List (Environment × Operation)) :
    ((initial { config with recentHits := capacity } target).run ops).map hitlessRun =
      ((initial config target).run ops).map hitlessRun ∧
    ∀ c replies, (initial config target).run ops = .ok (c, replies) →
      ∀ tid t, c.thread? tid = some t →
        (∀ e ∈ t.hits.entries, e ∈ t.registered.entries) ∧
        ∀ address hit hits, t.hits.lookup address = some (hit, hits) →
          t.registered.covering? address = some hit := by
  have start : ∀ config : Config, (initial config target).hitless =
      initial { config with recentHits := 0 } target := by
    intro config
    unfold initial hitless
    dsimp only
    rw [List.map_replicate]
    rfl
  constructor
  · rw [← (wellFormed_initial _ target).run_hitless, ← (wellFormed_initial _ target).run_hitless,
      start, start]
  · intro c replies ran tid t there
    have threadWf := ((Reachable.initial config target).run ran).wellFormed.threads tid t there
    refine ⟨threadWf.cached, fun address hit hits found => ?_⟩
    obtain ⟨-, member, holds⟩ := RecentHits.lookup_some found
    exact threadWf.registered.disjoint.covering?_eq_some (threadWf.cached hit member) holds

end Checker

end Overrun
