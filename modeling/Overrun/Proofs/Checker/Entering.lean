import Overrun.Proofs.Checker.Upkeep
import Overrun.Proofs.Thread.Entering

/-! What it comes to that a thread makes a call. The blocks of its function are registered where they lie
unless one is in the way of another, an activation is pushed, and nothing else happens. -/

namespace Overrun.Checker

variable {c : Checker} {tid : ThreadId} {t : Thread} {hook : CallHook} {blocks : List StackBlock}
  {fault : Fault}

/-- Whether `after` is what a call leaves for which `laid` was registered: the thread has made it, and
counted is what it gained. -/
structure Enters (tid : ThreadId) (t : Thread) (hook : CallHook) (laid : List (Span × Registration))
    (u : Thread) (c after : Checker) : Prop where
  entered : t.Enters hook laid u
  thread : after.thread? tid = some u
  rest : after = { c.setThread tid u with
    statistics := { c.statistics with
      registered := c.statistics.registered + laid.length
      pushed := c.statistics.pushed + 1 } }

namespace WellFormed

theorem call_refused (wf : c.WellFormed) (there : c.thread? tid = some t)
    (known : c.catalog.vector hook.vector = .ok blocks) (solid : ∀ block ∈ blocks, 0 < block.size)
    (failed : c.call tid hook = .error fault) :
    Collide t.registered (t.callLayout hook blocks) ∧
      Names tid hook t.registered (t.callLayout hook blocks) blocks fault := by
  cases result : t.call tid hook blocks with
  | error other =>
    rw [call_eq, thread_eq_ok_iff.2 there, known] at failed
    simp only [bind, Except.bind, result] at failed
    cases failed
    exact Thread.call_refuses solid result
  | ok called =>
    rw [wf.call_ok_iff.2 ⟨t, blocks, called, there, known, result, rfl⟩] at failed
    contradiction

theorem call_done (wf : c.WellFormed) (there : c.thread? tid = some t)
    (known : c.catalog.vector hook.vector = .ok blocks) (solid : ∀ block ∈ blocks, 0 < block.size)
    {o : Outcome Unit} (done : c.call tid hook = .ok o) :
    ¬Collide t.registered (t.callLayout hook blocks) ∧
      ∃ u, Enters tid t hook (t.callLayout hook blocks) u c o.checker := by
  obtain ⟨t', blocks', called, found, same, calling, rfl⟩ := wf.call_ok_iff.1 done
  cases there.symm.trans found
  cases known.symm.trans same
  obtain ⟨apart, entered, added⟩ := Thread.call_enters solid calling
  refine ⟨apart, called.thread, entered, thread?_setThread there, ?_⟩
  rw [← added]
  rfl

end WellFormed

/-- A call faults just when a block of its function is in the way of another one, and otherwise it
registers those that fit. -/
theorem Reachable.call_exact (reachable : c.Reachable) (there : c.thread? tid = some t)
    (hook : CallHook) (known : c.catalog.vector hook.vector = .ok blocks) :
    t.stack.top.registered = [] ∧
      ((∃ fault, c.call tid hook = .error fault) ↔
        Collide t.registered (t.callLayout hook blocks)) ∧
      (∀ fault, c.call tid hook = .error fault →
        Names tid hook t.registered (t.callLayout hook blocks) blocks fault) ∧
      (¬Collide t.registered (t.callLayout hook blocks) →
        ∃ o u, c.call tid hook = .ok o ∧
          Enters tid t hook (t.callLayout hook blocks) u c o.checker) := by
  have wf := reachable.wellFormed
  have solid : ∀ block ∈ blocks, 0 < block.size :=
    fun block => reachable.cataloged.canonical.size_pos known
  refine ⟨(wf.threads tid t there).idle, ⟨?_, fun collide => ?_⟩, fun fault failed => ?_,
    fun apart => ?_⟩
  · rintro ⟨fault, failed⟩
    exact (wf.call_refused there known solid failed).1
  · cases result : c.call tid hook with
    | error fault => exact ⟨fault, rfl⟩
    | ok o => exact absurd collide (wf.call_done there known solid result).1
  · exact (wf.call_refused there known solid failed).2
  · cases result : c.call tid hook with
    | error fault => exact absurd (wf.call_refused there known solid result).1 apart
    | ok o =>
      obtain ⟨-, u, enters⟩ := wf.call_done there known solid result
      exact ⟨o, u, rfl, enters⟩

def twoBuffers : List StackBlock :=
  [⟨-32, 16, false, true, "framed"⟩, ⟨0, 16, true, true, "pushed"⟩]

/-- A function is known that has a buffer in its frame and another at its stack pointer. -/
def sampleTwoBuffers : Checker :=
  sample.reached [(sampleEnvironment, .internVector twoBuffers)]

def twoBuffersCall (fp : UInt64) : CallHook :=
  ⟨0x7f00, 0x7ef8, fp, 0x2005, ⟨2⟩⟩

/-- Where the frame of the function starts decides whether its buffers are in each other's way. -/
theorem call_exact_sample :
    (∃ fault, sampleTwoBuffers.call ⟨0⟩ (twoBuffersCall 0x7f28) = .error fault) ∧
      ∃ o u new, sampleTwoBuffers.call ⟨0⟩ (twoBuffersCall 0x7f78) = .ok o ∧
        o.checker.thread? ⟨0⟩ = some u ∧
        u.registered.entries.Perm (new ++ sampleThread.registered.entries) ∧
        new.map Entry.laid =
          [(⟨0x7f58, 16⟩, ⟨⟨⟨2⟩, 0⟩, 2⟩), (⟨0x7f00, 16⟩, ⟨⟨⟨2⟩, 1⟩, 2⟩)] ∧
        new.map (·.id.index) = [1, 2] := by
  have reachable : sampleTwoBuffers.Reachable := reachable_sample.reached _
  have there : sampleTwoBuffers.thread? ⟨0⟩ = some sampleThread := by decide +kernel
  have known : sampleTwoBuffers.catalog.vector ⟨2⟩ = .ok twoBuffers := by decide +kernel
  constructor
  · obtain ⟨-, faults, -, -⟩ := reachable.call_exact there (twoBuffersCall 0x7f28) known
    have near : Collide sampleThread.registered
        (sampleThread.callLayout (twoBuffersCall 0x7f28) twoBuffers) := by decide +kernel
    exact faults.2 near
  · obtain ⟨-, -, -, done⟩ := reachable.call_exact there (twoBuffersCall 0x7f78) known
    have apart : ¬Collide sampleThread.registered
        (sampleThread.callLayout (twoBuffersCall 0x7f78) twoBuffers) := by decide +kernel
    obtain ⟨o, u, called, enters⟩ := done apart
    obtain ⟨new, same, numbers, entries⟩ := enters.entered.registered.entries
    have laid : sampleThread.callLayout (twoBuffersCall 0x7f78) twoBuffers =
        [(⟨0x7f58, 16⟩, ⟨⟨⟨2⟩, 0⟩, 2⟩), (⟨0x7f00, 16⟩, ⟨⟨⟨2⟩, 1⟩, 2⟩)] := by decide +kernel
    have next : sampleThread.registered.nextId.index = 1 := by decide +kernel
    rw [laid] at same numbers
    rw [next] at numbers
    exact ⟨o, u, new, called, enters.thread, entries, same, numbers⟩

end Overrun.Checker
