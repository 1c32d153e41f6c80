import Overrun.Proofs.Checker.Isolation
import Overrun.Proofs.Thread.Below

/-! Calls and returns balance. When a thread is back where it made a call, nothing is registered for it
but what was then, and its activations have what they had. They have forgotten the globals that were
unmapped meanwhile, and nothing else. -/

namespace Overrun.Checker

variable {start c after : Checker} {tid : ThreadId} {t : Thread} {env : Environment}

/-- An entry that stays is apart from the range, and unmapping spares what was learned of it. -/
theorem spared_of_mem_takeRange {globals : IntervalMap GlobalRef} (wf : globals.WellFormed)
    {range : Interval} {e : Entry GlobalRef} (stays : e ∈ (globals.takeRange range).2.entries) :
    voidedBy ((globals.takeRange range).1.map (·.id)) range
      (.global e.id e.interval.span e.value) = false := by
  obtain ⟨member, outside⟩ := List.mem_filter.1 stays
  have apart : ¬e.interval.Overlaps range := of_decide_eq_true outside
  have unnamed : ((globals.takeRange range).1.map (·.id)).contains e.id = false := by
    apply Bool.eq_false_iff.2
    intro named
    obtain ⟨other, removed, same⟩ := List.mem_map.1 (List.contains_iff_mem.1 named)
    obtain ⟨old, overlap⟩ := List.mem_filter.1 removed
    cases wf.eq_of_id old member same
    exact apart (of_decide_eq_true overlap)
  have disjoint : (Interval.ofSize? e.interval.span.start e.interval.span.size).any
      (fun iv => iv.Overlaps range) = false := by
    cases fits : Interval.ofSize? e.interval.span.start e.interval.span.size with
    | none => rfl
    | some other =>
      obtain ⟨first, size⟩ := Interval.ofSize?_eq_some fits
      have same : other.span = e.interval.span := by
        unfold Interval.span
        rw [first, size]
        rfl
      cases Interval.eq_of_span_eq same
      exact decide_eq_false apart
  unfold voidedBy
  dsimp only
  rw [unnamed, disjoint]
  rfl

theorem voidedBy_eq_stale {globals : IntervalMap GlobalRef} (wf : globals.WellFormed)
    {registered : IntervalMap Registration} {depth : Nat} {inv : Invariant}
    (live : inv.Live registered globals depth) (range : Interval) :
    voidedBy ((globals.takeRange range).1.map (·.id)) range inv =
      inv.stale (globals.takeRange range).2 := by
  cases inv with
  | global node span block =>
    cases fresh : (Invariant.global node span block).stale (globals.takeRange range).2 with
    | true =>
      obtain ⟨iv, there, rfl⟩ := live
      apply Bool.of_not_eq_false
      intro spared
      have kept := mem_takeRange_of_spared there spared
      have still : (Invariant.global node iv.span block).Live registered
        (globals.takeRange range).2 depth := ⟨iv, kept, rfl⟩
      rw [still.not_stale] at fresh
      contradiction
    | false =>
      obtain ⟨iv, stays, rfl⟩ := live.of_not_stale wf (globals.precedes_takeRange range) fresh
      exact spared_of_mem_takeRange wf stays
  | _ => rfl

theorem registerGlobals_keeps (c : Checker) (blocks : List GlobalBlock) :
    c.globals.Precedes (c.registerGlobals blocks).checker.globals ∧
      ∀ e ∈ c.globals.entries, e ∈ (c.registerGlobals blocks).checker.globals.entries := by
  apply registerGlobals_induct (P := fun d =>
    c.globals.Precedes d.globals ∧ ∀ e ∈ c.globals.entries, e ∈ d.globals.entries)
  · exact fun _ _ kept => kept
  · rintro d interval g id globals inserted ⟨before, kept⟩
    refine ⟨before.trans (IntervalMap.precedes_insert inserted), fun e member => ?_⟩
    obtain ⟨-, -, rfl⟩ := IntervalMap.insert_eq_ok inserted
    exact IntervalMap.mem_place.2 (.inr (kept e member))
  · exact fun _ kept => kept
  · exact ⟨.refl _, fun _ member => member⟩

theorem thread?_exitThread (c : Checker) (tid : ThreadId) :
    (c.exitThread tid).checker.thread? tid = none := by
  unfold exitThread
  split
  · next t found =>
    dsimp only
    rw [thread?_setSlot, if_pos ⟨rfl, index_lt_of_thread? found⟩]
  · next absent => exact absent

/-- Whether `t` is still there in what `tid` has become, but for the call it is in and for globals that
are gone. -/
structure Spared (start : Checker) (tid : ThreadId) (t : Thread) (c : Checker) : Prop where
  before : start.globals.Precedes c.globals
  thread : ∀ u, c.thread? tid = some u →
    Thread.SameBelow t.depth (t.forget (Invariant.stale c.globals)) u

def Deeper (tid : ThreadId) (depth : Nat) (c : Checker) : Prop :=
  ∃ u, c.thread? tid = some u ∧ depth < u.depth

namespace Spared

theorem same (spared : Spared start tid t c) (globals : after.globals = c.globals)
    (thread : after.thread? tid = c.thread? tid) : Spared start tid t after := by
  refine ⟨globals ▸ spared.before, fun u found => ?_⟩
  rw [thread] at found
  rw [globals]
  exact spared.thread u found

theorem consulted (spared : Spared start tid t c) (consulted : Consulted c after) :
    Spared start tid t after := by
  unfold Consulted at consulted
  rw [consulted]
  exact spared.same rfl rfl

theorem act (spared : Spared start tid t c) {u next : Thread} (found : c.thread? tid = some u)
    (kept : Thread.SameBelow t.depth u next)
    (threads : after.threads = (c.setThread tid next).threads)
    (globals : after.globals = c.globals) : Spared start tid t after := by
  refine ⟨globals ▸ spared.before, fun v now => ?_⟩
  rw [thread?_congr threads, thread?_setThread found] at now
  cases now
  rw [globals]
  exact (spared.thread u found).trans kept

theorem load (spared : Spared start tid t c) (wf : start.WellFormed)
    (there : start.thread? tid = some t) (blocks : List GlobalBlock) :
    Spared start tid t (c.afterLoad blocks) := by
  obtain ⟨before, kept⟩ := registerGlobals_keeps c blocks
  refine ⟨spared.before.trans before, fun u found => ?_⟩
  change (c.registerGlobals blocks).checker.thread? tid = some u at found
  rw [thread?_congr (registerGlobals_threads c blocks)] at found
  have nothing := (wf.threads tid t there).forget_since wf.globals spared.before before
    fun depth inv live => (live.keep (fun _ member _ => member) kept).not_stale.symm
  rw [Thread.forget_never] at nothing
  have same := spared.thread u found
  rw [nothing] at same
  exact same

theorem unmap (spared : Spared start tid t c) (wf : start.WellFormed)
    (there : start.thread? tid = some t) (globals : c.globals.WellFormed) (range : Interval) :
    Spared start tid t (c.afterUnmap range) := by
  have before := c.globals.precedes_takeRange range
  refine ⟨spared.before.trans before, fun u found => ?_⟩
  rw [thread?_afterUnmap] at found
  obtain ⟨old, oldFound, rfl⟩ := Option.map_eq_some_iff.1 found
  have forgotten := (wf.threads tid t there).forget_since wf.globals spared.before before
    fun depth inv live => voidedBy_eq_stale globals live range
  have same := (spared.thread old oldFound).forget
    (voidedBy ((c.globals.takeRange range).1.map (·.id)) range)
  rw [forgotten] at same
  exact same

end Spared

theorem Spared.step (spared : Spared start tid t c) (startWf : start.WellFormed)
    (there : start.thread? tid = some t) (wf : c.WellFormed) (deep : Deeper tid t.depth c)
    {op : Operation} {o : Outcome Reply} (done : c.step env op = .ok o)
    (still : Deeper tid t.depth o.checker) : Spared start tid t o.checker := by
  cases own : op.concerns tid with
  | false =>
    obtain ⟨alike, -⟩ := wf.step_other own done
    exact spared.same alike.globals alike.thread
  | true =>
    obtain ⟨v, present, above⟩ := deep
    cases wf.stepped done with
    | createThread parent room =>
      cases beq_iff_eq.1 own
      obtain ⟨u, found, above⟩ := still
      -- A new thread is at the bottom.
      cases (thread?_setThread present).symm.trans found
      contradiction
    | startThread found sp =>
      cases beq_iff_eq.1 own
      cases present.symm.trans found
      exact spared.act found (Thread.sameBelow_start sp (Nat.le_of_lt above)) rfl rfl
    | exitThread tid =>
      cases beq_iff_eq.1 own
      obtain ⟨u, found, -⟩ := still
      cases (thread?_exitThread c tid).symm.trans found
    | call found known calling =>
      cases beq_iff_eq.1 own
      cases present.symm.trans found
      exact spared.act found (Thread.sameBelow_call (Nat.le_of_lt above) calling) rfl rfl
    | unwind found unwinding =>
      cases beq_iff_eq.1 own
      obtain ⟨last, ends, inside⟩ := still
      cases (thread?_setThread found).symm.trans ends
      have kept := Thread.sameBelow_unwind (wf.threads _ _ found) unwinding (Nat.le_of_lt inside)
      exact spared.act found kept rfl rfl
    | @access _ hook _ blocks _ _ _ found known classified located reported =>
      cases beq_iff_eq.1 own
      subst classified
      cases present.symm.trans found
      obtain ⟨globals, threads, -⟩ := reportVerdict_keeps reported
      have threadWf := wf.threads _ v found
      have level : t.depth < (v.classify c.globals hook.vector blocks hook.access).thread.depth := by
        unfold Thread.depth
        rw [classify_stack]
        exact above
      exact spared.act found ((Thread.sameBelow_classify threadWf hook.vector blocks hook.access).trans
        (Thread.sameBelow_withTopSites _ level)) threads globals
    | classify access found known =>
      cases beq_iff_eq.1 own
      exact spared.act found (Thread.sameBelow_classify (wf.threads _ _ found) _ _ access) rfl rfl
    | loadGlobals => exact spared.load startWf there _
    | unmap region =>
      dsimp only
      rcases c.unmapped_eq region with same | ⟨range, same⟩
      · rw [same]
        exact spared
      · rw [same]
        exact spared.unmap startWf there wf.globals range
    | vectorAt instruction => exact spared.consulted (vectorAt_consulted env c instruction)
    | instrument instrumented => exact spared.consulted (instrument_lookedUp instrumented).consulted
    | internVector | takeDiagnostics | summarize => exact spared.same rfl rfl

/-- Whether operations lead from one state to another, with `tid` further up the stack than `depth` all
the while. -/
inductive Inside (tid : ThreadId) (depth : Nat) : Checker → Checker → Prop where
  | stay {c : Checker} (deep : Deeper tid depth c) : Inside tid depth c c
  | step {c last : Checker} {env : Environment} {op : Operation} {o : Outcome Reply}
      (deep : Deeper tid depth c) (done : c.step env op = .ok o)
      (rest : Inside tid depth o.checker last) : Inside tid depth c last

variable {inner : Checker} {depth : Nat}

theorem Inside.deeper (inside : Inside tid depth c inner) : Deeper tid depth c := by
  cases inside with
  | stay deep => exact deep
  | step deep done rest => exact deep

theorem Inside.wellFormed (inside : Inside tid depth c inner) (wf : c.WellFormed) :
    inner.WellFormed := by
  induction inside with
  | stay deep => exact wf
  | step deep done rest ih => exact ih (wf.step done)

theorem Spared.inside (spared : Spared start tid t c) (startWf : start.WellFormed)
    (there : start.thread? tid = some t) (wf : c.WellFormed)
    (inside : Inside tid t.depth c inner) : Spared start tid t inner := by
  induction inside with
  | stay deep => exact spared
  | step deep done rest ih =>
    exact ih (spared.step startWf there wf deep done rest.deeper) (wf.step done)

/-- A thread that calls and is back where it was, after whatever the callee and all other threads did,
has the entries that it had, and its activations are as they were, but for what they learned of globals
that are gone by then and for the pointers at the last call of the innermost. -/
theorem Reachable.call_returns (reachable : c.Reachable) (there : c.thread? tid = some t)
    {hook : CallHook} {entered left : Outcome Unit} (called : c.call tid hook = .ok entered)
    (inside : Inside tid t.depth entered.checker inner) {sp : UInt64}
    (returned : inner.unwind tid sp = .ok left) {u : Thread}
    (back : left.checker.thread? tid = some u) (level : u.depth = t.depth) :
    u.registered.entries = t.registered.entries ∧
    (∀ k < t.depth, u.stack.get? k =
      (t.stack.get? k).map (Activation.forget (Invariant.stale left.checker.globals))) ∧
    ∃ spAtCall fpAtCall, u.stack.top =
      { t.stack.top.forget (Invariant.stale left.checker.globals) with
        spAtCall := spAtCall, fpAtCall := fpAtCall, registered := [] } := by
  have wf := reachable.wellFormed
  have threadWf := wf.threads tid t there
  have enteredWf := wf.call called
  have innerWf := inside.wellFormed enteredWf
  have leftWf := (innerWf.unwind returned).threads tid u back
  -- Before the call the thread is all there.
  have first : Spared c tid t c := by
    refine ⟨.refl _, fun v found => ?_⟩
    cases there.symm.trans found
    rw [threadWf.forget_stale]
    exact .refl _ t
  have second : Spared c tid t entered.checker := by
    obtain ⟨v, blocks, outcome, found, known, calling, rfl⟩ := wf.call_ok_iff.1 called
    cases there.symm.trans found
    exact first.act found (Thread.sameBelow_call (Nat.le_refl _) calling) rfl rfl
  have third := second.inside wf there enteredWf inside
  have last : Spared c tid t left.checker := by
    obtain ⟨v, unwound, found, unwinding, rfl⟩ := innerWf.unwind_ok_iff.1 returned
    cases (thread?_setThread found).symm.trans back
    have kept := Thread.sameBelow_unwind (innerWf.threads tid v found) unwinding
      (Nat.le_of_eq level.symm)
    exact third.act found kept rfl rfl
  obtain ⟨⟨below, here⟩, registered⟩ := last.thread u back
  refine ⟨?_, ?_, u.stack.top.spAtCall, u.stack.top.fpAtCall, ?_⟩
  · have owned := threadWf.ownedBelow_depth
    have kept := leftWf.ownedBelow_depth
    rw [level] at kept
    exact kept.symm.trans (registered.trans owned)
  · intro k under
    exact (below k under).trans (ShadowStack.get?_map _ _ k)
  -- The innermost activation has come to rest, and so had `t` when it made the call.
  · apply Activation.eq_of_atRest _ leftWf.idle
    have top := u.stack.get?_depth
    change u.stack.get? u.depth = _ at top
    rw [level] at top
    rw [top, Thread.forget_eq, ShadowStack.get?_map] at here
    exact Option.some.inj (here.trans (congrArg _ (congrArg _ t.stack.get?_depth)))

def runInside (tid : ThreadId) (depth : Nat) (c : Checker) :
    List (Environment × Operation) → Option Checker
  | [] => if (c.thread? tid).any (depth < ·.depth) then some c else none
  | (env, op) :: rest =>
    if (c.thread? tid).any (depth < ·.depth) then
      (c.step env op).toOption.bind fun o => runInside tid depth o.checker rest
    else none

theorem deeper_iff : Deeper tid depth c ↔ (c.thread? tid).any (depth < ·.depth) = true := by
  unfold Deeper
  rw [Option.any_eq_true]
  simp

theorem inside_iff :
    Inside tid depth c inner ↔ ∃ ops, runInside tid depth c ops = some inner := by
  constructor
  · intro inside
    induction inside with
    | stay deep => exact ⟨[], if_pos (deeper_iff.1 deep)⟩
    | @step c last env op o deep done rest ih =>
      obtain ⟨ops, ran⟩ := ih
      refine ⟨(env, op) :: ops, ?_⟩
      unfold runInside
      rw [if_pos (deeper_iff.1 deep), done]
      exact ran
  · rintro ⟨ops, ran⟩
    induction ops generalizing c with
    | nil =>
      unfold runInside at ran
      split at ran
      · next deep =>
        cases ran
        exact .stay (deeper_iff.2 deep)
      · contradiction
    | cons first rest ih =>
      unfold runInside at ran
      split at ran
      · next deep =>
        obtain ⟨o, done, onward⟩ := toOption_bind_eq_some.1 ran
        exact .step (deeper_iff.2 deep) done (ih onward)
      · contradiction

/-- The second function calls a third, which makes two calls more and comes back from one. -/
def sampleCall : CallHook :=
  ⟨0x7f00, 0x7ef8, 0x7f70, 0x2005, ⟨0⟩⟩

def sampleInside : List Operation := [
  .access ⟨0⟩ ⟨0x7f50, 0x7ef8, 0x7ef0, 8, 0x4000, ⟨1⟩⟩,
  .call ⟨0⟩ ⟨0x7e80, 0x7e78, 0x7ef0, 0x4005, ⟨0⟩⟩,
  .call ⟨0⟩ ⟨0x7e00, 0x7df8, 0x7e70, 0x4005, ⟨1⟩⟩,
  .unwind ⟨0⟩ 0x7e00,
  .unmap ⟨0x5000, 8⟩,
  .access ⟨0⟩ ⟨0x7ed0, 0x7e78, 0x7e70, -8, 0x4000, ⟨1⟩⟩]

def sampleEntered : Outcome Unit :=
  (sample.call ⟨0⟩ sampleCall).toOption.getD ⟨(), sample, []⟩

def sampleInner : Checker :=
  (runInside ⟨0⟩ 2 sampleEntered.checker
    (sampleInside.map (sampleEnvironment, ·))).getD sampleEntered.checker

def sampleLeft : Outcome Unit :=
  (sampleInner.unwind ⟨0⟩ 0x7f00).toOption.getD ⟨(), sampleInner, []⟩

theorem call_returns_sample :
    ∃ u, sampleLeft.checker.thread? ⟨0⟩ = some u ∧
      u.registered.entries = sampleThread.registered.entries ∧
      u.stack.top.sites =
        sampleThread.stack.top.sites.forget (Invariant.stale sampleLeft.checker.globals) ∧
      sampleLeft.checker.globals.isEmpty = true := by
  have called : sample.call ⟨0⟩ sampleCall = .ok sampleEntered :=
    eq_ok_getD (by decide +kernel) _
  have inside : Inside ⟨0⟩ sampleThread.depth sampleEntered.checker sampleInner :=
    inside_iff.2 ⟨sampleInside.map (sampleEnvironment, ·), by decide +kernel⟩
  have returned : sampleInner.unwind ⟨0⟩ 0x7f00 = .ok sampleLeft :=
    eq_ok_getD (by decide +kernel) _
  have ends : (sampleLeft.checker.thread? ⟨0⟩).map Thread.depth = some sampleThread.depth := by
    decide +kernel
  obtain ⟨u, back, level⟩ := Option.map_eq_some_iff.1 ends
  obtain ⟨entries, -, spAtCall, fpAtCall, top⟩ :=
    reachable_sample.call_returns thread?_sample called inside returned back level
  refine ⟨u, back, entries, ?_, by decide +kernel⟩
  rw [top]
  rfl

end Overrun.Checker
