import Overrun.Proofs.Checker.Balance
import Overrun.Proofs.Checker.Entering
import Overrun.Proofs.Checker.Falling
import Overrun.Proofs.Thread.Unwinding

/-! A function that makes a call hands its blocks over. What was a block of its own frame is a block of a
caller's frame to the callee, for as long as the call goes on, and once it is over the entry is gone for
good. -/

namespace Overrun

namespace Thread

/-- Whether a thread may have become another: what has come since has new numbers, and what activations
below both have registered is still there. -/
structure Continues (t after : Thread) : Prop where
  precedes : t.registered.Precedes after.registered
  kept : ∀ bound ≤ t.depth, bound ≤ after.depth →
    after.registered.ownedBelow bound = t.registered.ownedBelow bound

variable {t after : Thread} {globals : IntervalMap GlobalRef} {tid : ThreadId}

theorem continues_of_eq (same : after.registered = t.registered) : t.Continues after :=
  ⟨same ▸ .refl _, fun bound _ _ => congrArg (IntervalMap.ownedBelow bound) same⟩

theorem continues_call {hook : CallHook} {blocks : List StackBlock} {called : Called}
    (solid : ∀ block ∈ blocks, 0 < block.size) (done : t.call tid hook blocks = .ok called) :
    t.Continues called.thread :=
  ⟨(call_enters solid done).2.1.registered.precedes,
    fun _ inside _ => (sameBelow_call inside done).registered⟩

theorem continues_unwind (wf : t.WellFormed globals) {sp : UInt64} {u : Unwound}
    (done : t.unwind tid sp = .ok u) : t.Continues u.thread := by
  obtain ⟨depth, v, same, -, cut⟩ := wf.unwind_cut tid sp
  cases done.symm.trans same
  exact ⟨cut.precedes, fun _ _ inside => (sameBelow_unwind wf done inside).registered⟩

theorem continues_classify (cached : t.Cached) (globals : IntervalMap GlobalRef)
    (vector : VectorRef) (blocks : List StackBlock) (access : Access) :
    t.Continues (t.classify globals vector blocks access).thread := by
  obtain ⟨hits, same, -⟩ := classify_thread cached globals vector blocks access
  rw [same]
  exact continues_of_eq rfl

end Thread

theorem FallsIn.laid {registered : IntervalMap Registration} {globals : IntervalMap GlobalRef}
    {vector : VectorRef} {blocks : List StackBlock} {access : Access} {held : Span}
    {block : BlockRef}
    (falls : FallsIn registered globals vector blocks access (.ownFrame held block))
    (fits : held.Fits) (depth : Nat) :
    (held, ⟨block, depth⟩) ∈ laidOut vector access.sp access.fp depth 0 blocks ∧
      held.contains access.span = true := by
  cases falls with
  | @ownFrame before after b split first takes =>
    rw [← b.span_eq] at fits ⊢
    refine ⟨mem_laidOut.2 ⟨before.length, b, ?_, fits, rfl⟩, StackBlock.takes_iff.1 takes⟩
    rw [split, List.getElem?_append_right (Nat.le_refl _), Nat.sub_self]
    rfl

/-- Whether the operation puts a thread into the slot of `tid` or takes the one there out. -/
def Operation.renews (tid : ThreadId) : Operation → Bool
  | .createThread _ child => child == tid
  | .exitThread other => other == tid
  | _ => false

namespace Checker

variable {start c last inner : Checker} {tid : ThreadId} {t : Thread} {env : Environment}
  {op : Operation} {depth : Nat}

theorem Reachable.step_continues (reachable : c.Reachable) (there : c.thread? tid = some t)
    (lasting : op.renews tid = false) {o : Outcome Reply} (done : c.step env op = .ok o) :
    ∃ u, o.checker.thread? tid = some u ∧ t.Continues u := by
  have wf := reachable.wellFormed
  cases own : op.concerns tid with
  | false =>
    obtain ⟨alike, -⟩ := wf.step_other own done
    exact ⟨t, alike.thread.trans there, Thread.continues_of_eq rfl⟩
  | true =>
    -- Of its own operations only calls and unwinds touch what is registered.
    cases wf.stepped done with
    | createThread | exitThread => exact absurd own (Bool.eq_false_iff.1 lasting)
    | startThread found sp =>
      cases beq_iff_eq.1 own
      cases there.symm.trans found
      exact ⟨_, thread?_setThread found, Thread.continues_of_eq rfl⟩
    | call found known calling =>
      cases beq_iff_eq.1 own
      cases there.symm.trans found
      have solid := fun block => reachable.cataloged.canonical.size_pos (b := block) known
      exact ⟨_, thread?_setThread found, Thread.continues_call solid calling⟩
    | unwind found unwinding =>
      cases beq_iff_eq.1 own
      cases there.symm.trans found
      exact ⟨_, thread?_setThread found,
        Thread.continues_unwind (wf.threads tid t found) unwinding⟩
    | @access _ hook _ blocks _ _ _ found known classified located reported =>
      cases beq_iff_eq.1 own
      subst classified
      cases there.symm.trans found
      obtain ⟨-, threads, -⟩ := reportVerdict_keeps reported
      have continues := Thread.continues_classify (wf.threads tid t found).cached c.globals
        hook.vector blocks hook.access
      exact ⟨_, (thread?_congr threads).trans (thread?_setThread found),
        ⟨continues.precedes, continues.kept⟩⟩
    | classify access found known =>
      cases beq_iff_eq.1 own
      cases there.symm.trans found
      exact ⟨_, thread?_setThread found,
        Thread.continues_classify (wf.threads tid t found).cached _ _ _ access⟩
    | unmap region =>
      dsimp only
      rcases c.unmapped_eq region with same | ⟨range, same⟩
      · rw [same]
        exact ⟨t, there, Thread.continues_of_eq rfl⟩
      · rw [same, thread?_afterUnmap, there]
        exact ⟨_, rfl, Thread.continues_of_eq rfl⟩
    | loadGlobals =>
      exact ⟨t, (thread?_congr (registerGlobals_threads c _)).trans there, Thread.continues_of_eq rfl⟩
    | vectorAt instruction =>
      have same := (vectorAt_consulted env c instruction).threads
      exact ⟨t, (thread?_congr same).trans there, Thread.continues_of_eq rfl⟩
    | instrument instrumented =>
      have same := (instrument_lookedUp instrumented).consulted.threads
      exact ⟨t, (thread?_congr same).trans there, Thread.continues_of_eq rfl⟩
    | internVector | takeDiagnostics | summarize =>
      exact ⟨t, there, Thread.continues_of_eq rfl⟩

/-- Whether operations lead from one state to another in which `tid` is still the thread it was. -/
inductive Onward (tid : ThreadId) (start : Checker) : Checker → Prop where
  | stay : Onward tid start start
  | step {c : Checker} {env : Environment} {op : Operation} {o : Outcome Reply}
      (before : Onward tid start c) (lasting : op.renews tid = false)
      (done : c.step env op = .ok o) : Onward tid start o.checker

namespace Onward

theorem trans (first : Onward tid start c) (second : Onward tid c last) :
    Onward tid start last := by
  induction second with
  | stay => exact first
  | step before lasting done ih => exact ih.step lasting done

theorem reachable (onward : Onward tid start c) (begins : start.Reachable) : c.Reachable := by
  induction onward with
  | stay => exact begins
  | step before lasting done ih => exact ih.step done

theorem precedes (onward : Onward tid start c) (reachable : start.Reachable)
    (there : start.thread? tid = some t) :
    ∃ u, c.thread? tid = some u ∧ t.registered.Precedes u.registered := by
  induction onward with
  | stay => exact ⟨t, there, .refl _⟩
  | step before lasting done ih =>
    obtain ⟨u, found, earlier⟩ := ih
    obtain ⟨v, next, continues⟩ := (before.reachable reachable).step_continues found lasting done
    exact ⟨v, next, earlier.trans continues.precedes⟩

theorem released (onward : Onward tid start c) (reachable : start.Reachable)
    (there : start.thread? tid = some t) {e : Entry Registration}
    (member : e ∈ t.registered.entries) {u : Thread} (found : c.thread? tid = some u)
    (back : u.depth ≤ e.value.depth) : u.registered.Spent e.id := by
  have startWf := reachable.wellFormed.threads tid t there
  have wf := (onward.reachable reachable).wellFormed.threads tid u found
  have issued := startWf.registered.fresh e member
  obtain ⟨v, again, earlier⟩ := onward.precedes reachable there
  cases found.symm.trans again
  refine ⟨Nat.lt_of_lt_of_le issued earlier.counted, fun other stands same => ?_⟩
  -- What stands at the number is the entry itself, but no activation is left that could own it.
  have old := earlier.old other stands (same ▸ issued)
  cases startWf.registered.eq_of_id old member same
  exact Nat.not_lt.2 back (wf.depth_lt stands)

end Onward

theorem renews_eq_false {o : Outcome Reply} (wf : c.WellFormed) (deep : Deeper tid depth c)
    (done : c.step env op = .ok o) (still : Deeper tid depth o.checker) :
    op.renews tid = false := by
  refine Bool.eq_false_iff.2 fun renews => ?_
  obtain ⟨u, found, above⟩ := still
  obtain ⟨t, there, -⟩ := deep
  cases wf.stepped done with
  | createThread parent room =>
    cases beq_iff_eq.1 renews
    cases (thread?_setThread there).symm.trans found
    contradiction
  | exitThread tid =>
    cases beq_iff_eq.1 renews
    cases (thread?_exitThread c tid).symm.trans found
  | _ => contradiction

/-- For as long as a call goes on, what was registered for it and for those below stays. -/
theorem Inside.kept (inside : Inside tid depth c inner) (reachable : c.Reachable)
    (there : c.thread? tid = some t) :
    Onward tid c inner ∧ ∃ u, inner.thread? tid = some u ∧
      u.registered.ownedBelow (depth + 1) = t.registered.ownedBelow (depth + 1) := by
  induction inside generalizing t with
  | stay deep => exact ⟨.stay, t, there, rfl⟩
  | step deep done rest ih =>
    have lasting := renews_eq_false reachable.wellFormed deep done rest.deeper
    obtain ⟨u, found, continues⟩ := reachable.step_continues there lasting done
    obtain ⟨onward, v, ends, same⟩ := ih (reachable.step done) found
    obtain ⟨t', there', above⟩ := deep
    cases there.symm.trans there'
    obtain ⟨u', found', still⟩ := rest.deeper
    cases found.symm.trans found'
    exact ⟨(Onward.stay.step lasting done).trans onward, v, ends,
      same.trans (continues.kept _ above still)⟩

theorem classify_node {access : Access} {vector : VectorRef} {o : Outcome Invariant}
    (wf : c.WellFormed) (done : c.classify tid access vector = .ok o) {node : NodeId} {span : Span}
    {block : BlockRef} {depth : Nat} (caller : o.value = .callerFrame node span block depth) :
    ∃ t, c.thread? tid = some t ∧ ∃ e ∈ t.registered.entries, e.id = node := by
  obtain ⟨t, blocks, there, -, rfl⟩ := classify_ok_iff.1 done
  have threadWf := wf.threads tid t there
  have found := (classify_invariant threadWf.registered threadWf.cached).symm.trans caller
  have live := @classification_live t.registered c.globals vector blocks access t.depth
    fun e member => threadWf.depth_lt member
  rw [found] at live
  obtain ⟨-, iv, member, -⟩ := live
  exact ⟨t, there, _, member, rfl⟩

theorem Reachable.call (reachable : c.Reachable) {hook : CallHook} {entered : Outcome Unit}
    (called : c.call tid hook = .ok entered) : entered.checker.Reachable := by
  have done : c.step (Recorded.environment Recorded.empty) (.call tid hook) =
      .ok (entered.map fun () => .done) := map_eq_ok.2 ⟨entered, called, rfl⟩
  exact reachable.step done

theorem Reachable.call_registers (reachable : c.Reachable) (there : c.thread? tid = some t)
    {hook : CallHook} {entered : Outcome Unit} (called : c.call tid hook = .ok entered)
    {span : Span} (nonempty : span.size ≠ 0) {o : Outcome Invariant}
    (classified : c.classify tid ⟨span, hook.spAtCall, hook.fp⟩ hook.vector = .ok o)
    {held : Span} {block : BlockRef} (own : o.value = .ownFrame held block) (fits : held.Fits) :
    ∃ u, entered.checker.thread? tid = some u ∧ t.depth < u.depth ∧
      ∃ e ∈ u.registered.entries, e.laid = (held, ⟨block, t.depth⟩) ∧
        e.interval.contains span = true := by
  have wf := reachable.wellFormed
  obtain ⟨t', blocks, found, known, rfl⟩ := classify_ok_iff.1 classified
  cases there.symm.trans found
  have threadWf := wf.threads tid t there
  have falls : FallsIn t.registered c.globals hook.vector blocks ⟨span, hook.spAtCall, hook.fp⟩
      (.ownFrame held block) := by
    rw [← own]
    exact (fallsIn_iff threadWf.registered wf.globals nonempty).2
      (classify_invariant threadWf.registered threadWf.cached)
  obtain ⟨laid, holds⟩ := falls.laid fits t.depth
  have solid : ∀ block ∈ blocks, 0 < block.size :=
    fun block => reachable.cataloged.canonical.size_pos known
  obtain ⟨-, u, enters⟩ := wf.call_done there known solid called
  have deeper : t.depth < u.depth := by
    unfold Thread.depth ShadowStack.depth
    rw [enters.entered.caller]
    exact Nat.lt_succ_self _
  obtain ⟨e, member, lies⟩ := enters.entered.registered.exists_entry laid
  refine ⟨u, enters.thread, deeper, e, member, lies, ?_⟩
  have spans : e.interval.span = held := congrArg Prod.fst lies
  rw [Interval.contains, spans]
  exact holds

theorem Inside.classify_registered (inside : Inside tid depth c inner) (reachable : c.Reachable)
    (there : c.thread? tid = some t) {e : Entry Registration} (member : e ∈ t.registered.entries)
    (owner : e.value.depth = depth) {access : Access} (nonempty : access.span.size ≠ 0)
    (holds : e.interval.contains access.span = true) {vector : VectorRef}
    {blocks : List StackBlock} (known : inner.catalog.vector vector = .ok blocks)
    (uncovered : ∀ b ∈ blocks, ¬b.Takes access) :
    ∃ p, inner.classify tid access vector = .ok p ∧
      p.value = .callerFrame e.id e.interval.span e.value.block e.value.depth := by
  obtain ⟨-, u, present, kept⟩ := inside.kept reachable there
  have owned : e ∈ t.registered.ownedBelow (depth + 1) :=
    List.mem_filter.2 ⟨member, decide_eq_true (owner ▸ Nat.lt_succ_self _)⟩
  rw [← kept] at owned
  have wf := (inside.wellFormed reachable.wellFormed).threads tid u present
  obtain ⟨p, done, value⟩ := classify_value present known wf.registered wf.cached
  refine ⟨p, done, value.trans ?_⟩
  exact classification_caller wf.registered nonempty
    (fun b frame => mt StackBlock.takes_iff.2 (uncovered b frame)) (List.mem_filter.1 owned).1 holds

/-- Nothing is ever classified by a number that is spent. -/
theorem Onward.classify_spent (onward : Onward tid start c) (reachable : start.Reachable)
    (there : start.thread? tid = some t) {node : NodeId} (spent : t.registered.Spent node)
    {access : Access} {vector : VectorRef} {o : Outcome Invariant}
    (done : c.classify tid access vector = .ok o) (span : Span) (block : BlockRef) (depth : Nat) :
    o.value ≠ .callerFrame node span block depth := by
  intro caller
  obtain ⟨u, found, e, member, same⟩ :=
    classify_node (onward.reachable reachable).wellFormed done caller
  obtain ⟨v, again, earlier⟩ := onward.precedes reachable there
  cases found.symm.trans again
  exact (spent.later earlier).2 e member same

/-- A block of the own frame is a block of a caller's frame to whatever runs for as long as the call goes
on, unless it is covered by a block of the frame that is asked. Once the thread is back, nothing is ever
classified by the entry again. -/
theorem Reachable.handed_over (reachable : c.Reachable) (there : c.thread? tid = some t)
    {hook : CallHook} {entered : Outcome Unit} (called : c.call tid hook = .ok entered)
    {span : Span} (nonempty : span.size ≠ 0) {o : Outcome Invariant}
    (classified : c.classify tid ⟨span, hook.spAtCall, hook.fp⟩ hook.vector = .ok o)
    {held : Span} {block : BlockRef} (own : o.value = .ownFrame held block) (fits : held.Fits) :
    ∃ node,
      Inside tid t.depth entered.checker entered.checker ∧
      (∀ inner, Inside tid t.depth entered.checker inner → ∀ sp fp vector blocks,
        inner.catalog.vector vector = .ok blocks → (∀ b ∈ blocks, ¬b.Takes ⟨span, sp, fp⟩) →
        ∃ p, inner.classify tid ⟨span, sp, fp⟩ vector = .ok p ∧
          p.value = .callerFrame node held block t.depth) ∧
      ∀ left u, Onward tid entered.checker left → left.thread? tid = some u → u.depth ≤ t.depth →
        ∀ later, Onward tid left later → ∀ access vector p,
          later.classify tid access vector = .ok p →
          ∀ span block depth, p.value ≠ .callerFrame node span block depth := by
  obtain ⟨u, present, deeper, ⟨iv, node, _⟩, member, lies, holds⟩ :=
    reachable.call_registers there called nonempty classified own fits
  cases lies
  have begins := reachable.call called
  refine ⟨node, .stay ⟨u, present, deeper⟩, ?_, ?_⟩
  · intro inner inside sp fp vector blocks known uncovered
    exact inside.classify_registered begins present member rfl nonempty holds known uncovered
  · intro left v onward back shallow later further access vector p done
    have spent := onward.released begins present member back shallow
    exact further.classify_spent (onward.reachable begins) back spent done

/-- What the second function hands over is found two calls further up, and no more once it is back. -/
theorem handed_over_sample :
    ∃ node p, sampleInner.classify ⟨0⟩ ⟨⟨0x7f50, 8⟩, 0x7e78, 0x7e70⟩ ⟨1⟩ = .ok p ∧
      p.value = .callerFrame node ⟨0x7f50, 16⟩ ⟨⟨0⟩, 0⟩ 2 ∧
      ∀ access vector q, sampleLeft.checker.classify ⟨0⟩ access vector = .ok q →
        ∀ span block depth, q.value ≠ .callerFrame node span block depth := by
  have called : sample.call ⟨0⟩ sampleCall = .ok sampleEntered :=
    eq_ok_getD (by decide +kernel) _
  have inside : Inside ⟨0⟩ sampleThread.depth sampleEntered.checker sampleInner :=
    inside_iff.2 ⟨sampleInside.map (sampleEnvironment, ·), by decide +kernel⟩
  have returned : sampleInner.unwind ⟨0⟩ 0x7f00 = .ok sampleLeft :=
    eq_ok_getD (by decide +kernel) _
  have fine : (sample.classify ⟨0⟩ ⟨⟨0x7f50, 8⟩, 0x7f00, 0x7f70⟩ ⟨0⟩).isOk = true := by decide +kernel
  have own : (sample.classify ⟨0⟩ ⟨⟨0x7f50, 8⟩, 0x7f00, 0x7f70⟩ ⟨0⟩).toOption.map (·.value) =
      some (.ownFrame ⟨0x7f50, 16⟩ ⟨⟨0⟩, 0⟩) := by decide +kernel
  have known : sampleInner.catalog.vector ⟨1⟩ = .ok [] := by decide +kernel
  have ends : (sampleLeft.checker.thread? ⟨0⟩).map Thread.depth = some sampleThread.depth := by
    decide +kernel
  obtain ⟨o, classified⟩ := exists_of_isOk fine
  rw [classified] at own
  obtain ⟨u, back, level⟩ := Option.map_eq_some_iff.1 ends
  obtain ⟨node, -, handed, gone⟩ := reachable_sample.handed_over thread?_sample called
    (by decide) classified (Option.some.inj own) (by decide)
  obtain ⟨p, found, value⟩ := handed sampleInner inside 0x7e78 0x7e70 ⟨1⟩ [] known
    fun _ absurd => by contradiction
  have begins : sampleEntered.checker.Reachable := reachable_sample.call called
  obtain ⟨v, entered, -⟩ := inside.deeper
  have leaves : sampleInner.step sampleEnvironment (.unwind ⟨0⟩ 0x7f00) =
      .ok (sampleLeft.map fun () => .done) := map_eq_ok.2 ⟨sampleLeft, returned, rfl⟩
  have onward : Onward ⟨0⟩ sampleEntered.checker sampleLeft.checker :=
    (inside.kept begins entered).1.step rfl leaves
  refine ⟨node, p, found, ?_, gone _ u onward back (Nat.le_of_eq level) _ .stay⟩
  have level : sampleThread.depth = 2 := by decide +kernel
  rw [value, level]

end Checker

end Overrun
