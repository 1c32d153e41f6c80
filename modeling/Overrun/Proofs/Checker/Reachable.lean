import Overrun.Environment.Recorded
import Overrun.Proofs.Checker.Access

/-! The states a checker can get into, by any operations of any threads in any order. All of them are
well formed, so nothing that an instruction has learned names an entry that is gone. -/

namespace Overrun.Checker

/-- The states that come about from a new checker by operations that have a result. -/
inductive Reachable : Checker → Prop where
  | initial (config : Config) (target : Target) : Reachable (.initial config target)
  | step {c : Checker} {env : Environment} {op : Operation} {o : Outcome Reply}
      (before : Reachable c) (done : c.step env op = .ok o) : Reachable o.checker

variable {c : Checker}

theorem Reachable.run {ops : List (Environment × Operation)} {after : Checker}
    {replies : List Reply} (before : c.Reachable) (done : c.run ops = .ok (after, replies)) :
    after.Reachable := by
  induction ops generalizing c replies with
  | nil =>
    cases done
    exact before
  | cons first rest ih =>
    obtain ⟨o, stepped, done⟩ := bind_eq_ok.1 done
    obtain ⟨⟨last, later⟩, ran, same⟩ := bind_eq_ok.1 done
    cases same
    exact ih (before.step stepped) ran

/-- The state that operations lead to. If one of them faults it is the state they started from. -/
def reached (c : Checker) (ops : List (Environment × Operation)) : Checker :=
  ((c.run ops).toOption.map Prod.fst).getD c

theorem run_reached (c : Checker) (ops : List (Environment × Operation))
    (fine : (c.run ops).isOk = true) :
    ∃ replies, c.run ops = .ok (c.reached ops, replies) := by
  obtain ⟨⟨after, replies⟩, done⟩ := exists_of_isOk fine
  refine ⟨replies, ?_⟩
  unfold reached
  rw [done]
  rfl

theorem Reachable.reached (before : c.Reachable) (ops : List (Environment × Operation)) :
    (c.reached ops).Reachable := by
  unfold Checker.reached
  cases ran : c.run ops with
  | error fault => exact before
  | ok result => exact before.run ran

theorem run_append {first second : List (Environment × Operation)} {middle after : Checker}
    {early late : List Reply} (before : c.run first = .ok (middle, early))
    (done : middle.run second = .ok (after, late)) :
    c.run (first ++ second) = .ok (after, early ++ late) := by
  induction first generalizing c early with
  | nil =>
    cases before
    exact done
  | cons op rest ih =>
    obtain ⟨o, stepped, before⟩ := bind_eq_ok.1 before
    obtain ⟨⟨last, later⟩, ran, same⟩ := bind_eq_ok.1 before
    cases same
    rw [List.cons_append]
    exact bind_eq_ok.2 ⟨o, stepped, bind_eq_ok.2 ⟨_, ih ran, rfl⟩⟩

theorem reachable_iff_run :
    c.Reachable ↔ ∃ config target ops replies,
      (Checker.initial config target).run ops = .ok (c, replies) := by
  constructor
  · intro reachable
    induction reachable with
    | initial config target => exact ⟨config, target, [], [], rfl⟩
    | @step c env op o before done ih =>
      obtain ⟨config, target, ops, replies, ran⟩ := ih
      have last : c.run [(env, op)] = .ok (o.checker, [o.value]) :=
        bind_eq_ok.2 ⟨o, done, rfl⟩
      exact ⟨config, target, ops ++ [(env, op)], replies ++ [o.value], run_append ran last⟩
  · rintro ⟨config, target, ops, replies, ran⟩
    exact (Reachable.initial config target).run ran

namespace WellFormed

variable {tid : ThreadId} {o : Outcome Unit}

theorem createThread (wf : c.WellFormed) {parent : Option ThreadId}
    (done : c.createThread parent tid = .ok o) : o.checker.WellFormed := by
  unfold Checker.createThread at done
  split at done
  · cases done
    exact wf.setThread tid (Thread.wellFormed_initial c.globals c.config.recentHits)
  · contradiction

theorem startThread (wf : c.WellFormed) {sp : UInt64} (done : c.startThread tid sp = .ok o) :
    o.checker.WellFormed := by
  obtain ⟨t, found, done⟩ := bind_eq_ok.1 done
  cases done
  exact (wf.setThread tid ((wf.thread found).start sp)).congr rfl rfl

theorem exitThread (wf : c.WellFormed) (tid : ThreadId) :
    (c.exitThread tid).checker.WellFormed := by
  unfold Checker.exitThread
  split
  · exact wf.setSlot fun t absurd => by contradiction
  · exact wf

theorem call (wf : c.WellFormed) {hook : CallHook} (done : c.call tid hook = .ok o) :
    o.checker.WellFormed := by
  rw [call_eq] at done
  obtain ⟨t, found, done⟩ := bind_eq_ok.1 done
  obtain ⟨blocks, known, done⟩ := bind_eq_ok.1 done
  obtain ⟨called, calling, done⟩ := bind_eq_ok.1 done
  obtain ⟨checked, -, done⟩ := bind_eq_ok.1 done
  cases done
  exact wf.afterCall found calling

theorem unwind (wf : c.WellFormed) {sp : UInt64} (done : c.unwind tid sp = .ok o) :
    o.checker.WellFormed := by
  rw [unwind_eq] at done
  obtain ⟨t, found, done⟩ := bind_eq_ok.1 done
  obtain ⟨unwound, unwinding, done⟩ := bind_eq_ok.1 done
  have after := wf.afterUnwind found unwinding
  split at done
  · obtain ⟨checked, -, done⟩ := bind_eq_ok.1 done
    cases done
    exact after
  · cases done
    exact after

theorem loadGlobals (wf : c.WellFormed) {env : Environment} {handle : UInt64}
    (done : c.loadGlobals env handle = .ok o) : o.checker.WellFormed := by
  rw [loadGlobals_eq] at done
  obtain ⟨checked, -, done⟩ := bind_eq_ok.1 done
  cases done
  exact wf.afterLoad _

theorem unmap (wf : c.WellFormed) {region : Span} (done : c.unmap region = .ok o) :
    o.checker.WellFormed := by
  cases fits : Interval.clamped? region.start region.size with
  | none =>
    rw [unmap_nowhere fits] at done
    cases done
    exact wf
  | some range =>
    cases none : (c.globals.takeRange range).1.isEmpty with
    | true =>
      rw [unmap_spared fits none] at done
      cases done
      exact wf
    | false =>
      rw [unmap_eq fits none] at done
      obtain ⟨checked, -, done⟩ := bind_eq_ok.1 done
      cases done
      exact wf.afterUnmap range

theorem step (wf : c.WellFormed) {env : Environment} {op : Operation} {o : Outcome Reply}
    (done : c.step env op = .ok o) : o.checker.WellFormed := by
  cases op with
  | createThread parent child =>
    obtain ⟨result, ran, rfl⟩ := map_eq_ok.1 done
    exact wf.createThread ran
  | startThread tid sp =>
    obtain ⟨result, ran, rfl⟩ := map_eq_ok.1 done
    exact wf.startThread ran
  | exitThread tid =>
    cases done
    exact wf.exitThread tid
  | call tid hook =>
    obtain ⟨result, ran, rfl⟩ := map_eq_ok.1 done
    exact wf.call ran
  | unwind tid sp =>
    obtain ⟨result, ran, rfl⟩ := map_eq_ok.1 done
    exact wf.unwind ran
  | access tid hook =>
    obtain ⟨result, ran, rfl⟩ := map_eq_ok.1 done
    exact wf.access ran
  | classify tid access vector =>
    obtain ⟨result, ran, rfl⟩ := map_eq_ok.1 done
    exact wf.classify ran
  | loadGlobals handle =>
    obtain ⟨result, ran, rfl⟩ := map_eq_ok.1 done
    exact wf.loadGlobals ran
  | unmap region =>
    obtain ⟨result, ran, rfl⟩ := map_eq_ok.1 done
    exact wf.unmap ran
  | internVector blocks =>
    cases done
    exact wf.congr rfl rfl
  | vectorAt instruction =>
    cases done
    exact wf.consulted (vectorAt_consulted env c instruction)
  | instrument block layout hooks =>
    unfold Checker.step at done
    dsimp only at done
    split at done
    · next instrumented =>
      cases done
      exact wf.consulted (instrument_lookedUp instrumented).consulted
    · contradiction
  | takeDiagnostics =>
    cases done
    exact wf.congr rfl rfl
  | summarize =>
    cases done
    exact wf

end WellFormed

theorem Reachable.wellFormed (reachable : c.Reachable) : c.WellFormed := by
  induction reachable with
  | initial config target => exact wellFormed_initial config target
  | step before done ih => exact ih.step done

/-- What an activation has learned of blocks outside its frame names entries that are there, unchanged.
A block of a caller was registered further down the stack, so it is some frames back. -/
theorem Reachable.learned_registered (reachable : c.Reachable) {tid : ThreadId} {t : Thread}
    (there : c.thread? tid = some t) {depth : Nat} {a : Activation}
    (found : t.stack.get? depth = some a) {site : Site} (member : site ∈ a.sites.sites) :
    (∀ node span block owner, site.invariant = .callerFrame node span block owner →
      (owner < depth ∧ 1 ≤ depth - owner) ∧ ∃ e ∈ t.registered.entries,
        e.id = node ∧ e.interval.span = span ∧ e.value = ⟨block, owner⟩) ∧
    (∀ node span block, site.invariant = .global node span block →
      ∃ e ∈ c.globals.entries, e.id = node ∧ e.interval.span = span ∧ e.value = block) := by
  have threadWf := reachable.wellFormed.threads tid t there
  have live := (threadWf.live depth a found).2 site member
  constructor
  · intro node span block owner learned
    rw [learned] at live
    obtain ⟨below, iv, registered, same⟩ := live
    exact ⟨⟨below, Nat.sub_pos_of_lt below⟩, _, registered, rfl, same, rfl⟩
  · intro node span block learned
    rw [learned] at live
    obtain ⟨iv, registered, same⟩ := live
    exact ⟨_, registered, rfl, same, rfl⟩

def sampleEnvironment : Environment :=
  Recorded.environment { Recorded.empty with
    globalBlocks := [(1, [⟨0x5000, 64, true, "table", "tables.so"⟩])] }

/-- A function passes a buffer to another, which touches it at `0x2000` and a table at `0x3000`. -/
def sampleOperations : List Operation := [
  .createThread none ⟨0⟩,
  .startThread ⟨0⟩ 0x8000,
  .internVector [⟨-32, 16, false, true, "buffer"⟩],
  .internVector [],
  .loadGlobals 1,
  .call ⟨0⟩ ⟨0x7f80, 0x7f78, 0x8000, 0x1005, ⟨0⟩⟩,
  .access ⟨0⟩ ⟨0x7fe0, 0x7f78, 0x7f80, 4, 0x2000, ⟨1⟩⟩,
  .access ⟨0⟩ ⟨0x5000, 0x7f78, 0x7f80, 4, 0x3000, ⟨1⟩⟩]

def sampleStart : Checker :=
  initial { Config.default with maxThreads := 1 } ⟨.amd64, .linux, .gnu⟩

def sample : Checker :=
  match sampleStart.run (sampleOperations.map (sampleEnvironment, ·)) with
  | .ok (c, _) => c
  | .error _ => sampleStart

def sampleThread : Thread :=
  (sample.thread? ⟨0⟩).getD (.initial 0)

theorem reachable_sample : sample.Reachable := by
  have start : sampleStart.Reachable := .initial _ _
  unfold sample
  split
  · next ran => exact start.run ran
  · exact start

theorem thread?_sample : sample.thread? ⟨0⟩ = some sampleThread := by
  decide +kernel

theorem learned_registered_sample :
    (∃ e ∈ sampleThread.registered.entries,
      e.id = ⟨0⟩ ∧ e.interval.span = ⟨0x7fe0, 16⟩ ∧ e.value = ⟨⟨⟨0⟩, 0⟩, 1⟩) ∧
    ∃ e ∈ sample.globals.entries,
      e.id = ⟨0⟩ ∧ e.interval.span = ⟨0x5000, 64⟩ ∧ e.value = ⟨0⟩ := by
  have callee : sampleThread.stack.get? 2 = some sampleThread.stack.top := by decide +kernel
  have buffer : ⟨0x2000, ⟨1⟩, .callerFrame ⟨0⟩ ⟨0x7fe0, 16⟩ ⟨⟨0⟩, 0⟩ 1⟩ ∈
      sampleThread.stack.top.sites.sites := by decide +kernel
  have table : ⟨0x3000, ⟨1⟩, .global ⟨0⟩ ⟨0x5000, 64⟩ ⟨0⟩⟩ ∈
      sampleThread.stack.top.sites.sites := by decide +kernel
  have callers := (reachable_sample.learned_registered thread?_sample callee buffer).1
  have globals := (reachable_sample.learned_registered thread?_sample callee table).2
  exact ⟨(callers _ _ _ _ rfl).2, globals _ _ _ rfl⟩

end Overrun.Checker
