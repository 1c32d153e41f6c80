import Overrun.Checker.Operation
import Overrun.Proofs.Checker.Consulting
import Overrun.Proofs.Thread.WellFormed

/-! What holds of a checker at all times: its global blocks are disjoint, and every thread there is keeps
its own blocks and what it has learned in order. Each operation that has a result keeps it so. -/

namespace Overrun.Checker

structure WellFormed (c : Checker) : Prop where
  globals : c.globals.WellFormed
  threads : ∀ tid t, c.thread? tid = some t → t.WellFormed c.globals

variable {c : Checker} {tid : ThreadId}

theorem thread?_initial (config : Config) (target : Target) (tid : ThreadId) :
    (initial config target).thread? tid = none := by
  unfold thread? initial
  dsimp only
  rw [List.getElem?_replicate]
  split <;> rfl

theorem wellFormed_initial (config : Config) (target : Target) :
    (initial config target).WellFormed := by
  refine ⟨IntervalMap.wellFormed_empty, fun tid t found => ?_⟩
  rw [thread?_initial] at found
  contradiction

theorem thread_eq_ok_iff {t : Thread} : c.thread tid = .ok t ↔ c.thread? tid = some t := by
  unfold thread thread?
  rw [Option.join_eq_some_iff]
  split
  · next held same => simp [same]
  · next same => simp [same]
  · next same => simp [same]

theorem thread?_congr {after : Checker} (threads : after.threads = c.threads) :
    after.thread? tid = c.thread? tid := by
  unfold thread?
  rw [threads]

theorem thread?_map {after : Checker} {f : Thread → Thread}
    (threads : after.threads = c.threads.map (Option.map f)) (tid : ThreadId) :
    after.thread? tid = (c.thread? tid).map f := by
  unfold thread?
  rw [threads, List.getElem?_map]
  cases c.threads[tid.index]? with
  | none => rfl
  | some slot => cases slot <;> rfl

theorem thread?_setSlot (slot : Option Thread) (other : ThreadId) :
    (c.setSlot tid slot).thread? other =
      if tid.index = other.index ∧ tid.index < c.threads.length then slot
      else c.thread? other := by
  unfold setSlot thread?
  dsimp only
  rw [List.getElem?_set]
  by_cases same : tid.index = other.index
  · by_cases inside : tid.index < c.threads.length
    · simp [same, same ▸ inside]
    · simp [same, same ▸ inside]
  · simp [same]

theorem index_lt_of_thread? {t : Thread} (found : c.thread? tid = some t) :
    tid.index < c.threads.length := by
  obtain ⟨inside, -⟩ := List.getElem?_eq_some_iff.1 (Option.join_eq_some_iff.1 found)
  exact inside

theorem thread?_setThread {t new : Thread} (found : c.thread? tid = some t) :
    (c.setThread tid new).thread? tid = some new := by
  unfold setThread
  rw [thread?_setSlot, if_pos ⟨rfl, index_lt_of_thread? found⟩]

section Threads

variable {I : Thread → Prop} {after : Checker}

theorem forall_thread?_congr (all : ∀ tid t, c.thread? tid = some t → I t)
    (threads : after.threads = c.threads) : ∀ tid t, after.thread? tid = some t → I t := by
  intro tid t found
  rw [thread?_congr threads] at found
  exact all tid t found

theorem forall_thread?_setSlot (all : ∀ tid t, c.thread? tid = some t → I t)
    {slot : Option Thread} (kept : ∀ t, slot = some t → I t)
    (threads : after.threads = (c.setSlot tid slot).threads) :
    ∀ other t, after.thread? other = some t → I t := by
  intro other t found
  rw [thread?_congr threads, thread?_setSlot] at found
  split at found
  · exact kept t found
  · exact all other t found

end Threads

namespace WellFormed

theorem setSlot (wf : c.WellFormed) {slot : Option Thread}
    (kept : ∀ t, slot = some t → t.WellFormed c.globals) : (c.setSlot tid slot).WellFormed :=
  ⟨wf.globals, forall_thread?_setSlot wf.threads kept rfl⟩

theorem setThread (wf : c.WellFormed) (tid : ThreadId) {t : Thread}
    (kept : t.WellFormed c.globals) : (c.setThread tid t).WellFormed :=
  wf.setSlot fun _ same => Option.some.inj same ▸ kept

/-- Neither the counters nor the report, the catalog or the known vectors matter. -/
theorem congr (wf : c.WellFormed) {after : Checker} (globals : after.globals = c.globals)
    (threads : after.threads = c.threads) : after.WellFormed := by
  have kept := forall_thread?_congr wf.threads threads
  rw [← globals] at kept
  exact ⟨globals ▸ wf.globals, kept⟩

theorem consulted (wf : c.WellFormed) {after : Checker} (consulted : Consulted c after) :
    after.WellFormed := by
  unfold Consulted at consulted
  rw [consulted]
  exact wf.congr rfl rfl

theorem thread (wf : c.WellFormed) {t : Thread} (found : c.thread tid = .ok t) :
    t.WellFormed c.globals :=
  wf.threads tid t (thread_eq_ok_iff.1 found)

end WellFormed

/-- The state after a call, before it is looked over. -/
def afterCall (c : Checker) (tid : ThreadId) (called : Thread.Called) : Checker :=
  { c.setThread tid called.thread with
    statistics := { c.statistics with
      registered := c.statistics.registered + called.added
      pushed := c.statistics.pushed + 1 } }

theorem call_eq (c : Checker) (tid : ThreadId) (hook : CallHook) :
    c.call tid hook = (do
      let t ← c.thread tid
      let blocks ← c.catalog.vector hook.vector
      let called ← t.call tid hook blocks
      (c.afterCall tid called).selfCheck
      return ⟨(), c.afterCall tid called, called.events⟩) :=
  rfl

theorem WellFormed.afterCall (wf : c.WellFormed) {t : Thread} {hook : CallHook}
    {blocks : List StackBlock} {called : Thread.Called} (found : c.thread tid = .ok t)
    (done : t.call tid hook blocks = .ok called) : (c.afterCall tid called).WellFormed := by
  have threadWf := (wf.thread found).call done
  exact (wf.setThread tid threadWf).congr rfl rfl

def afterUnwind (c : Checker) (tid : ThreadId) (unwound : Thread.Unwound) : Checker :=
  { c.setThread tid unwound.thread with
    statistics := { c.statistics with
      released := c.statistics.released + unwound.released
      popped := c.statistics.popped + unwound.popped } }

theorem unwind_eq (c : Checker) (tid : ThreadId) (sp : UInt64) :
    c.unwind tid sp = (do
      let t ← c.thread tid
      let unwound ← t.unwind tid sp
      if unwound.popped > 0 then (c.afterUnwind tid unwound).selfCheck
      return ⟨(), c.afterUnwind tid unwound, unwound.events⟩) :=
  rfl

theorem WellFormed.afterUnwind (wf : c.WellFormed) {t : Thread} {sp : UInt64}
    {unwound : Thread.Unwound} (found : c.thread tid = .ok t)
    (done : t.unwind tid sp = .ok unwound) : (c.afterUnwind tid unwound).WellFormed := by
  obtain ⟨u, same, threadWf⟩ := (wf.thread found).unwind_ok tid sp
  rw [done] at same
  cases same
  exact (wf.setThread tid threadWf).congr rfl rfl

/-- What survives the keeping, the registering and the refusing of a global block survives taking in any
number of them. -/
theorem registerGlobals_induct {P : Checker → Prop}
    (intern : ∀ c block, P c → P { c with catalog := (c.catalog.internGlobal block).2 })
    (register : ∀ c interval g id globals, c.globals.insert interval g = .ok (id, globals) →
      P c → P { c with globals := globals })
    (warn : ∀ c, P c → P { c with overlapWarnings := c.overlapWarnings - 1 })
    (blocks : List GlobalBlock) (start : P c) : P (c.registerGlobals blocks).checker := by
  induction blocks generalizing c with
  | nil => exact start
  | cons block rest ih =>
    unfold Checker.registerGlobals
    split
    · exact ih start
    · next interval fits =>
      let kept := { c with catalog := (c.catalog.internGlobal block).2 }
      have held : P kept := intern c block start
      dsimp only
      split
      · next id globals inserted => exact ih (register kept _ _ id globals inserted held)
      · split
        · exact ih held
        · exact ih (warn kept held)

theorem WellFormed.registerGlobals (wf : c.WellFormed) (blocks : List GlobalBlock) :
    (c.registerGlobals blocks).checker.WellFormed := by
  apply registerGlobals_induct
  · exact fun _ _ wf => wf.congr rfl rfl
  · intro c interval g id globals inserted wf
    refine ⟨wf.globals.insert inserted, fun tid t found => ?_⟩
    apply (wf.threads tid t found).keep
    obtain ⟨-, -, rfl⟩ := IntervalMap.insert_eq_ok inserted
    exact fun e member => IntervalMap.mem_place.2 (.inr member)
  · exact fun _ wf => wf.congr rfl rfl
  · exact wf

def afterLoad (c : Checker) (blocks : List GlobalBlock) : Checker :=
  let r := c.registerGlobals blocks
  { r.checker with
    statistics := { r.checker.statistics with
      globalsAdded := r.checker.statistics.globalsAdded + r.added } }

theorem loadGlobals_eq (env : Environment) (c : Checker) (handle : UInt64) :
    c.loadGlobals env handle = (do
      let blocks := env.globalBlocksOf handle c.config.arraysOnly
      (c.afterLoad blocks).selfCheck
      return ⟨(), c.afterLoad blocks, (c.registerGlobals blocks).events
        ++ [.globalsLoaded handle (c.registerGlobals blocks).added]⟩) :=
  rfl

theorem WellFormed.afterLoad (wf : c.WellFormed) (blocks : List GlobalBlock) :
    (c.afterLoad blocks).WellFormed :=
  (wf.registerGlobals blocks).congr rfl rfl

def afterUnmap (c : Checker) (range : Interval) : Checker :=
  let removed := (c.globals.takeRange range).1
  let void := voidedBy (removed.map (·.id)) range
  { c with
    globals := (c.globals.takeRange range).2
    threads := c.threads.map (Option.map (Thread.forget void))
    statistics := { c.statistics with
      globalsRemoved := c.statistics.globalsRemoved + removed.length
      preened := c.statistics.preened + c.invariants.countP fun inv => inv.globalNode?.isSome
      changed := c.statistics.changed + c.invariants.countP void } }

theorem unmap_nowhere {region : Span}
    (empty : Interval.clamped? region.start region.size = none) :
    c.unmap region = .ok ⟨(), c, []⟩ := by
  unfold unmap
  rw [empty]

theorem unmap_spared {region : Span} {range : Interval}
    (fits : Interval.clamped? region.start region.size = some range)
    (none : (c.globals.takeRange range).1.isEmpty = true) :
    c.unmap region = .ok ⟨(), c, []⟩ := by
  unfold unmap
  rw [fits]
  dsimp only
  rw [none]
  rfl

theorem unmap_eq {region : Span} {range : Interval}
    (fits : Interval.clamped? region.start region.size = some range)
    (some : (c.globals.takeRange range).1.isEmpty = false) :
    c.unmap region = (do
      (c.afterUnmap range).selfCheck
      let void := voidedBy ((c.globals.takeRange range).1.map (·.id)) range
      return ⟨(), c.afterUnmap range, [.regionUnmapped region (c.globals.takeRange range).1.length
        (c.invariants.countP fun inv => inv.globalNode?.isSome) (c.invariants.countP void)]⟩) := by
  unfold unmap
  rw [fits]
  dsimp only
  rw [some]
  rfl

theorem thread?_afterUnmap (c : Checker) (range : Interval) (tid : ThreadId) :
    (c.afterUnmap range).thread? tid = (c.thread? tid).map
      (Thread.forget (voidedBy ((c.globals.takeRange range).1.map (·.id)) range)) :=
  thread?_map rfl tid

theorem mem_takeRange_of_spared {globals : IntervalMap GlobalRef} {range : Interval}
    {e : Entry GlobalRef} (member : e ∈ globals.entries)
    (spared : voidedBy ((globals.takeRange range).1.map (·.id)) range
      (.global e.id e.interval.span e.value) = false) :
    e ∈ (globals.takeRange range).2.entries := by
  by_cases overlap : e.interval.Overlaps range
  · have removed : e ∈ (globals.takeRange range).1 :=
      List.mem_filter.2 ⟨member, decide_eq_true overlap⟩
    have named : ((globals.takeRange range).1.map (·.id)).contains e.id = true :=
      List.contains_iff_mem.2 (List.mem_map_of_mem removed)
    unfold voidedBy at spared
    dsimp only at spared
    rw [named] at spared
    contradiction
  · exact List.mem_filter.2 ⟨member, decide_eq_true overlap⟩

theorem WellFormed.afterUnmap (wf : c.WellFormed) (range : Interval) :
    (c.afterUnmap range).WellFormed := by
  refine ⟨wf.globals.takeRange range, fun tid t found => ?_⟩
  rw [thread?_afterUnmap] at found
  obtain ⟨old, oldFound, rfl⟩ := Option.map_eq_some_iff.1 found
  exact (wf.threads tid old oldFound).forget fun e member spared =>
    mem_takeRange_of_spared member spared

end Overrun.Checker
