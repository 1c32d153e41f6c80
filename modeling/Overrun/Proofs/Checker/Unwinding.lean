import Overrun.Proofs.Checker.Effects
import Overrun.Proofs.Checker.Reachable
import Overrun.Proofs.Thread.Unwinding

/-! What it comes to that a stack pointer rises. The thread goes back to the innermost activation that is
not below it, whatever was registered since then is released, and nothing else happens. So it does not
matter how many steps the stack pointer takes. -/

namespace Overrun.Checker

variable {c : Checker} {tid : ThreadId} {t : Thread} {low high sp : UInt64}

theorem setThread_self (there : c.thread? tid = some t) : c.setThread tid t = c := by
  have held : c.threads[tid.index]? = some (some t) := Option.join_eq_some_iff.1 there
  obtain ⟨inside, same⟩ := List.getElem?_eq_some_iff.1 held
  unfold setThread setSlot
  rw [← same, List.set_getElem_self]

theorem afterUnwind_afterUnwind {u v w : Thread.Unwound} (thread : w.thread = v.thread)
    (popped : w.popped = u.popped + v.popped) (released : w.released = u.released + v.released) :
    (c.afterUnwind tid u).afterUnwind tid v = c.afterUnwind tid w := by
  simp only [afterUnwind, setThread, setSlot, List.set_set, thread, popped, released,
    Nat.add_assoc]

theorem afterUnwind_nothing (there : c.thread? tid = some t) :
    c.afterUnwind tid ⟨t, 0, 0, []⟩ = c := by
  have same := setThread_self there
  simp only [afterUnwind, same, Nat.add_zero]

/-- Whether `after` is what an unwind of `tid` to `sp` leaves: the thread is cut to `depth`, and counted
is what it lost. -/
structure Unwinds (tid : ThreadId) (t : Thread) (sp : UInt64) (depth : Nat) (u : Thread)
    (c after : Checker) : Prop where
  ends : t.stack.EndsAt sp depth
  cut : t.CutTo depth u
  thread : after.thread? tid = some u
  rest : after = { c.setThread tid u with
    statistics := { c.statistics with
      released := c.statistics.released + (t.registered.size - u.registered.size)
      popped := c.statistics.popped + (t.depth - depth) } }

namespace WellFormed

theorem unwind_ok (wf : c.WellFormed) (there : c.thread? tid = some t) (sp : UInt64) :
    ∃ depth u, t.unwind tid sp = .ok u ∧ t.stack.EndsAt sp depth ∧ t.CutTo depth u.thread ∧
      c.unwind tid sp = .ok ⟨(), c.afterUnwind tid u, u.events⟩ := by
  obtain ⟨depth, u, done, ends, cut⟩ := (wf.threads tid t there).unwind_cut tid sp
  exact ⟨depth, u, done, ends, cut, wf.unwind_ok_iff.2 ⟨t, u, there, done, rfl⟩⟩

theorem unwinds (wf : c.WellFormed) (there : c.thread? tid = some t) (sp : UInt64) :
    ∃ o depth u, c.unwind tid sp = .ok o ∧ Unwinds tid t sp depth u c o.checker := by
  obtain ⟨depth, u, done, ends, cut, unwinding⟩ := wf.unwind_ok there sp
  obtain ⟨pops, releases⟩ := Thread.count_unwind done
  rw [cut.level] at pops
  refine ⟨_, depth, u.thread, unwinding, ends, cut, thread?_setThread there, ?_⟩
  rw [releases, pops, Nat.add_sub_cancel_left, Nat.add_sub_cancel_left]
  rfl

/-- Rising further from where an unwind ended comes to rising there at once. -/
theorem unwind_higher (wf : c.WellFormed) (there : c.thread? tid = some t) (higher : low ≤ high)
    {o : Outcome Unit} (done : c.unwind tid low = .ok o) :
    ∃ p q, o.checker.unwind tid high = .ok p ∧ c.unwind tid high = .ok q ∧
      p.checker = q.checker := by
  obtain ⟨depth, u, first, -, -, same⟩ := wf.unwind_ok there low
  cases done.symm.trans same
  have midway : (c.afterUnwind tid u).thread? tid = some u.thread := thread?_setThread there
  obtain ⟨_, v, second, -, -, later⟩ := (wf.unwind done).unwind_ok midway high
  obtain ⟨w, whole, thread, popped, released⟩ := Thread.popAbove_popAbove first higher second
  have once := wf.unwind_ok_iff.2 ⟨t, w, there, whole, rfl⟩
  exact ⟨_, _, later, once, afterUnwind_afterUnwind thread popped released⟩

theorem unwind_lower (wf : c.WellFormed) (there : c.thread? tid = some t) (lower : low ≤ high)
    {o : Outcome Unit} (done : c.unwind tid high = .ok o) :
    o.checker.unwind tid low = .ok ⟨(), o.checker, []⟩ := by
  obtain ⟨depth, u, -, ends, cut, same⟩ := wf.unwind_ok there high
  cases done.symm.trans same
  have midway : (c.afterUnwind tid u).thread? tid = some u.thread := thread?_setThread there
  have settled := Thread.unwind_settled tid (UInt64.le_trans lower (cut.settled ends))
  have again := (wf.unwind done).unwind_ok_iff.2 ⟨_, _, midway, settled, rfl⟩
  rw [afterUnwind_nothing midway] at again
  exact again

end WellFormed

/-- Unwinding never faults. It ends at the innermost activation that the stack pointer has not risen above,
and from there on it does not matter how the stack pointer got there. -/
theorem Reachable.unwind_exact (reachable : c.Reachable) (there : c.thread? tid = some t)
    (sp : UInt64) :
    ∃ o depth u, c.unwind tid sp = .ok o ∧ Unwinds tid t sp depth u c o.checker ∧
      (∀ later, ∃ p q, o.checker.unwind tid later = .ok p ∧
        c.unwind tid (max sp later) = .ok q ∧ p.checker = q.checker) ∧
      ∃ again, o.checker.unwind tid sp = .ok again ∧ again.checker = o.checker := by
  have wf := reachable.wellFormed
  obtain ⟨o, depth, u, done, unwinds⟩ := wf.unwinds there sp
  have settled := wf.unwind_lower there (UInt64.le_refl sp) done
  refine ⟨o, depth, u, done, unwinds, fun later => ?_, _, settled, rfl⟩
  by_cases higher : sp ≤ later
  · have highest : max sp later = later := if_pos higher
    rw [highest]
    exact wf.unwind_higher there higher done
  · have highest : max sp later = sp := if_neg higher
    have lower := UInt64.le_of_lt (UInt64.not_le.1 higher)
    rw [highest]
    exact ⟨_, o, wf.unwind_lower there lower done, done, rfl⟩

/-- The second function calls one that runs on a stack of its own, which lies above its caller's frame. -/
def sampleElsewhere : Checker :=
  sample.reached [(sampleEnvironment, .call ⟨0⟩ ⟨0x7f70, 0x7fc0, 0x7f80, 0x2005, ⟨0⟩⟩)]

def sampleElsewhereThread : Thread :=
  (sampleElsewhere.thread? ⟨0⟩).getD (.initial 0)

/-- A stack pointer that has risen above the caller alone ends no call. Once it is above the callee it ends
both, in one step or in two. -/
theorem unwind_exact_sample :
    ∃ o u p q, sampleElsewhere.unwind ⟨0⟩ 0x7f80 = .ok o ∧
      o.checker.thread? ⟨0⟩ = some u ∧ u.depth = 3 ∧
      u.registered = sampleElsewhereThread.registered ∧
      o.checker.unwind ⟨0⟩ 0x7fd0 = .ok p ∧ sampleElsewhere.unwind ⟨0⟩ 0x7fd0 = .ok q ∧
      p.checker = q.checker ∧ (q.checker.thread? ⟨0⟩).map Thread.depth = some 1 := by
  have reachable : sampleElsewhere.Reachable := reachable_sample.reached _
  have there : sampleElsewhere.thread? ⟨0⟩ = some sampleElsewhereThread := by decide +kernel
  obtain ⟨o, depth, u, done, unwinds, steps, -⟩ := reachable.unwind_exact there 0x7f80
  obtain ⟨p, q, later, once, same⟩ := steps 0x7fd0
  have innermost : sampleElsewhereThread.stack.EndsAt 0x7f80 3 := by
    refine ⟨⟨sampleElsewhereThread.stack.top, by decide +kernel, by decide +kernel⟩, ?_⟩
    intro k a higher found
    have outside : sampleElsewhereThread.stack.get? k = none :=
      List.getElem?_eq_none_iff.2 higher
    rw [outside] at found
    contradiction
  have level : depth = 3 := unwinds.ends.eq innermost
  have registered : u.registered = sampleElsewhereThread.registered := by
    rw [unwinds.cut.registered, level]
    decide +kernel
  have outermost : (sampleElsewhere.unwind ⟨0⟩ 0x7fd0).toOption.map
      (fun q => (q.checker.thread? ⟨0⟩).map Thread.depth) = some (some 1) := by decide +kernel
  have highest : sampleElsewhere.unwind ⟨0⟩ 0x7fd0 = .ok q := once
  rw [highest] at outermost
  exact ⟨o, u, p, q, done, unwinds.thread, unwinds.cut.level.trans level, registered, later, highest,
    same, Option.some.inj outermost⟩

end Overrun.Checker
