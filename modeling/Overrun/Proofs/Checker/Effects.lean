import Overrun.Proofs.Checker.Access
import Overrun.Proofs.Consistency.Audit

/-! When the operations of a well-formed checker have a result, and what it then is. The search for
contradictions that some of them end with has no part in it. -/

namespace Overrun.Checker

variable {c : Checker} {tid : ThreadId} {o : Outcome Unit}

theorem createThread_ok_iff {parent : Option ThreadId} {child : ThreadId} :
    c.createThread parent child = .ok o ↔
      child.index < c.threads.length ∧
        o = ⟨(), c.setThread child (.initial c.config.recentHits),
          [.threadCreated parent child]⟩ := by
  unfold createThread
  split
  · next room => simp [room, eq_comm]
  · next crowded => simp [crowded]

def afterStart (c : Checker) (tid : ThreadId) (t : Thread) (sp : UInt64) : Checker :=
  { c.setThread tid { t with stack := t.stack.push (.entered sp 0) } with
    statistics := { c.statistics with pushed := c.statistics.pushed + 1 } }

theorem startThread_ok_iff {sp : UInt64} :
    c.startThread tid sp = .ok o ↔
      ∃ t, c.thread? tid = some t ∧ o = ⟨(), c.afterStart tid t sp, [.threadStarted tid sp]⟩ := by
  unfold startThread
  rw [bind_eq_ok]
  simp only [thread_eq_ok_iff]
  refine exists_congr fun t => and_congr_right fun _ => ?_
  exact ⟨fun done => (Except.ok.inj done).symm, fun same => same ▸ rfl⟩

theorem classify_ok_iff {access : Access} {vector : VectorRef} {o : Outcome Invariant} :
    c.classify tid access vector = .ok o ↔
      ∃ t blocks, c.thread? tid = some t ∧ c.catalog.vector vector = .ok blocks ∧
        o = ⟨(t.classify c.globals vector blocks access).invariant,
          c.afterClassify tid (t.classify c.globals vector blocks access), []⟩ := by
  rw [classify_eq]
  constructor
  · intro done
    obtain ⟨t, found, done⟩ := bind_eq_ok.1 done
    obtain ⟨blocks, known, done⟩ := bind_eq_ok.1 done
    exact ⟨t, blocks, thread_eq_ok_iff.1 found, known, (Except.ok.inj done).symm⟩
  · rintro ⟨t, blocks, found, known, rfl⟩
    exact bind_eq_ok.2 ⟨t, thread_eq_ok_iff.2 found, bind_eq_ok.2 ⟨blocks, known, rfl⟩⟩

namespace WellFormed

theorem call_ok_iff (wf : c.WellFormed) {hook : CallHook} :
    c.call tid hook = .ok o ↔
      ∃ t blocks called, c.thread? tid = some t ∧ c.catalog.vector hook.vector = .ok blocks ∧
        t.call tid hook blocks = .ok called ∧
        o = ⟨(), c.afterCall tid called, called.events⟩ := by
  rw [call_eq]
  constructor
  · intro done
    obtain ⟨t, found, done⟩ := bind_eq_ok.1 done
    obtain ⟨blocks, known, done⟩ := bind_eq_ok.1 done
    obtain ⟨called, calling, done⟩ := bind_eq_ok.1 done
    rw [(wf.afterCall found calling).checked] at done
    exact ⟨t, blocks, called, thread_eq_ok_iff.1 found, known, calling, (Except.ok.inj done).symm⟩
  · rintro ⟨t, blocks, called, found, known, calling, rfl⟩
    refine bind_eq_ok.2 ⟨t, thread_eq_ok_iff.2 found, bind_eq_ok.2 ⟨blocks, known, ?_⟩⟩
    refine bind_eq_ok.2 ⟨called, calling, ?_⟩
    rw [(wf.afterCall (thread_eq_ok_iff.2 found) calling).checked]
    rfl

theorem unwind_ok_iff (wf : c.WellFormed) {sp : UInt64} :
    c.unwind tid sp = .ok o ↔
      ∃ t u, c.thread? tid = some t ∧ t.unwind tid sp = .ok u ∧
        o = ⟨(), c.afterUnwind tid u, u.events⟩ := by
  have checked : ∀ t u, c.thread tid = .ok t → t.unwind tid sp = .ok u →
      ((do
        if u.popped > 0 then (c.afterUnwind tid u).selfCheck
        return ⟨(), c.afterUnwind tid u, u.events⟩ : Except Fault (Outcome Unit)) =
      .ok ⟨(), c.afterUnwind tid u, u.events⟩) := by
    intro t u found unwinding
    split
    · rw [(wf.afterUnwind found unwinding).checked]
      rfl
    · rfl
  rw [unwind_eq]
  constructor
  · intro done
    obtain ⟨t, found, done⟩ := bind_eq_ok.1 done
    obtain ⟨u, unwinding, done⟩ := bind_eq_ok.1 done
    rw [checked t u found unwinding] at done
    exact ⟨t, u, thread_eq_ok_iff.1 found, unwinding, (Except.ok.inj done).symm⟩
  · rintro ⟨t, u, found, unwinding, rfl⟩
    refine bind_eq_ok.2 ⟨t, thread_eq_ok_iff.2 found, bind_eq_ok.2 ⟨u, unwinding, ?_⟩⟩
    exact checked t u (thread_eq_ok_iff.2 found) unwinding

theorem loadGlobals_ok (wf : c.WellFormed) (env : Environment) (handle : UInt64) :
    ∃ events, c.loadGlobals env handle =
      .ok ⟨(), c.afterLoad (env.globalBlocksOf handle c.config.arraysOnly), events⟩ := by
  rw [loadGlobals_eq]
  dsimp only
  rw [(wf.afterLoad _).checked]
  exact ⟨_, rfl⟩

end WellFormed

def unmapped (c : Checker) (region : Span) : Checker :=
  match Interval.clamped? region.start region.size with
  | none => c
  | some range => if (c.globals.takeRange range).1.isEmpty then c else c.afterUnmap range

/-- A region can always be unmapped. -/
theorem WellFormed.unmap_ok (wf : c.WellFormed) (region : Span) :
    ∃ events, c.unmap region = .ok ⟨(), c.unmapped region, events⟩ := by
  unfold unmapped
  cases fits : Interval.clamped? region.start region.size with
  | none => exact ⟨_, unmap_nowhere fits⟩
  | some range =>
    dsimp only
    split
    · next spared => exact ⟨_, unmap_spared fits spared⟩
    · next taken =>
      rw [unmap_eq fits (Bool.eq_false_iff.2 taken), (wf.afterUnmap range).checked]
      exact ⟨_, rfl⟩

theorem unmapped_eq (c : Checker) (region : Span) :
    c.unmapped region = c ∨ ∃ range, c.unmapped region = c.afterUnmap range := by
  unfold unmapped
  split
  · exact .inl rfl
  · split
    · exact .inl rfl
    · exact .inr ⟨_, rfl⟩

theorem exitThread_eq (c : Checker) (tid : ThreadId) :
    (c.exitThread tid).checker = c ∨ (c.exitThread tid).checker = c.setSlot tid none := by
  unfold exitThread
  split
  · exact .inr rfl
  · exact .inl rfl

inductive Stepped (env : Environment) (c : Checker) : Operation → Outcome Reply → Prop where
  | createThread (parent : Option ThreadId) {child : ThreadId}
      (room : child.index < c.threads.length) :
      Stepped env c (.createThread parent child)
        ⟨.done, c.setThread child (.initial c.config.recentHits), [.threadCreated parent child]⟩
  | startThread {tid : ThreadId} {t : Thread} (found : c.thread? tid = some t) (sp : UInt64) :
      Stepped env c (.startThread tid sp)
        ⟨.done, c.afterStart tid t sp, [.threadStarted tid sp]⟩
  | exitThread (tid : ThreadId) :
      Stepped env c (.exitThread tid) ((c.exitThread tid).map fun () => .done)
  | call {tid : ThreadId} {hook : CallHook} {t : Thread} {blocks : List StackBlock}
      {called : Thread.Called} (found : c.thread? tid = some t)
      (known : c.catalog.vector hook.vector = .ok blocks)
      (calling : t.call tid hook blocks = .ok called) :
      Stepped env c (.call tid hook) ⟨.done, c.afterCall tid called, called.events⟩
  | unwind {tid : ThreadId} {sp : UInt64} {t : Thread} {u : Thread.Unwound}
      (found : c.thread? tid = some t) (unwinding : t.unwind tid sp = .ok u) :
      Stepped env c (.unwind tid sp) ⟨.done, c.afterUnwind tid u, u.events⟩
  | access {tid : ThreadId} {hook : AccessHook} {t : Thread} {blocks : List StackBlock}
      {r : Thread.Classified} {l : SiteTable.Located} {o : Outcome Unit}
      (found : c.thread? tid = some t) (known : c.catalog.vector hook.vector = .ok blocks)
      (classified : t.classify c.globals hook.vector blocks hook.access = r)
      (located : r.thread.stack.top.sites.findOrCreate hook.instruction hook.vector = .ok l)
      (reported : (c.afterAccess tid r l).reportVerdict env tid r.thread.depth hook
        l.site.invariant r.invariant = .ok o) :
      Stepped env c (.access tid hook) (o.map fun () => .done)
  | classify {tid : ThreadId} (access : Access) {vector : VectorRef} {t : Thread}
      {blocks : List StackBlock} (found : c.thread? tid = some t)
      (known : c.catalog.vector vector = .ok blocks) :
      Stepped env c (.classify tid access vector)
        ⟨.invariant (t.classify c.globals vector blocks access).invariant,
          c.afterClassify tid (t.classify c.globals vector blocks access), []⟩
  | loadGlobals (handle : UInt64) (events : List Event) :
      Stepped env c (.loadGlobals handle)
        ⟨.done, c.afterLoad (env.globalBlocksOf handle c.config.arraysOnly), events⟩
  | unmap (region : Span) (events : List Event) :
      Stepped env c (.unmap region) ⟨.done, c.unmapped region, events⟩
  | internVector (blocks : List StackBlock) :
      Stepped env c (.internVector blocks)
        ⟨.vector (c.internVector blocks).1, (c.internVector blocks).2, []⟩
  | vectorAt (instruction : UInt64) :
      Stepped env c (.vectorAt instruction) ((c.vectorAt env instruction).map .vector)
  | instrument {block : Guest.SuperBlock} {layout : Guest.Layout} {hooks : Hooks}
      {o : Outcome (Except InstrumentError Guest.SuperBlock)}
      (instrumented : c.instrument env block layout hooks = .ok o) :
      Stepped env c (.instrument block layout hooks) (o.map .block)
  | takeDiagnostics : Stepped env c .takeDiagnostics (c.takeDiagnostics.map .diagnostics)
  | summarize : Stepped env c .summarize (c.summarize.map .statistics)

theorem WellFormed.stepped (wf : c.WellFormed) {env : Environment} {op : Operation}
    {o : Outcome Reply} (done : c.step env op = .ok o) : Stepped env c op o := by
  cases op with
  | createThread parent child =>
    obtain ⟨result, ran, rfl⟩ := map_eq_ok.1 done
    obtain ⟨room, rfl⟩ := createThread_ok_iff.1 ran
    exact .createThread parent room
  | startThread tid sp =>
    obtain ⟨result, ran, rfl⟩ := map_eq_ok.1 done
    obtain ⟨t, found, rfl⟩ := startThread_ok_iff.1 ran
    exact .startThread found sp
  | exitThread tid =>
    cases done
    exact .exitThread tid
  | call tid hook =>
    obtain ⟨result, ran, rfl⟩ := map_eq_ok.1 done
    obtain ⟨t, blocks, called, found, known, calling, rfl⟩ := wf.call_ok_iff.1 ran
    exact .call found known calling
  | unwind tid sp =>
    obtain ⟨result, ran, rfl⟩ := map_eq_ok.1 done
    obtain ⟨t, u, found, unwinding, rfl⟩ := wf.unwind_ok_iff.1 ran
    exact .unwind found unwinding
  | access tid hook =>
    obtain ⟨result, ran, rfl⟩ := map_eq_ok.1 done
    obtain ⟨t, blocks, l, found, known, located, reported⟩ := access_ok_iff.1 ran
    exact .access found known rfl located reported
  | classify tid access vector =>
    obtain ⟨result, ran, rfl⟩ := map_eq_ok.1 done
    obtain ⟨t, blocks, found, known, rfl⟩ := classify_ok_iff.1 ran
    exact .classify access found known
  | loadGlobals handle =>
    obtain ⟨result, ran, rfl⟩ := map_eq_ok.1 done
    obtain ⟨events, loaded⟩ := wf.loadGlobals_ok env handle
    cases loaded.symm.trans ran
    exact .loadGlobals handle events
  | unmap region =>
    obtain ⟨result, ran, rfl⟩ := map_eq_ok.1 done
    obtain ⟨events, gone⟩ := wf.unmap_ok region
    cases gone.symm.trans ran
    exact .unmap region events
  | internVector blocks =>
    cases done
    exact .internVector blocks
  | vectorAt instruction =>
    cases done
    exact .vectorAt instruction
  | instrument block layout hooks =>
    unfold Checker.step at done
    dsimp only at done
    split at done
    · next instrumented =>
      cases done
      exact .instrument instrumented
    · contradiction
  | takeDiagnostics =>
    cases done
    exact .takeDiagnostics
  | summarize =>
    cases done
    exact .summarize

/-- What an operation can do to a checker at most: it gives a thread another state, registers or drops
globals, or looks up vectors. -/
inductive Changed (env : Environment) (c : Checker) : Checker → Prop where
  | thread (tid : ThreadId) (slot : Option Thread) (statistics : Statistics) (report : Report) :
      Changed env c { c.setSlot tid slot with statistics := statistics, report := report }
  | load (blocks : List GlobalBlock) : Changed env c (c.afterLoad blocks)
  | unmap (range : Interval) : Changed env c (c.afterUnmap range)
  | intern (blocks : List StackBlock) : Changed env c (c.internVector blocks).2
  | consult {after : Checker} (found : LookedUp env c after) : Changed env c after
  | report (report : Report) : Changed env c { c with report := report }

theorem WellFormed.step_changed (wf : c.WellFormed) {env : Environment} {op : Operation}
    {o : Outcome Reply} (done : c.step env op = .ok o) : Changed env c o.checker := by
  cases wf.stepped done with
  | createThread | startThread | call | unwind | classify => exact .thread _ _ _ c.report
  | exitThread tid =>
    show Changed env c (c.exitThread tid).checker
    rcases c.exitThread_eq tid with same | same
    · rw [same]
      exact .report c.report
    · rw [same]
      exact .thread tid none c.statistics c.report
  | access found known classified located reported =>
    rcases reportVerdict_ok_iff.1 reported with ⟨-, d, -, rfl⟩ | ⟨-, rfl⟩
    · exact .thread _ _ _ _
    · exact .thread _ _ _ c.report
  | loadGlobals => exact .load _
  | unmap region =>
    dsimp only
    rcases c.unmapped_eq region with same | ⟨range, same⟩
    · rw [same]
      exact .report c.report
    · rw [same]
      exact .unmap range
  | internVector blocks => exact .intern blocks
  | vectorAt instruction => exact .consult (LookedUp.nothing.vector instruction)
  | instrument instrumented => exact .consult (instrument_lookedUp instrumented)
  | takeDiagnostics => exact .report ∅
  | summarize => exact .report c.report

end Overrun.Checker
