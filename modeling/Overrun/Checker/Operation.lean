import Overrun.Checker.Accesses
import Overrun.Checker.Globals
import Overrun.Checker.Instrumentation
import Overrun.Checker.Threads

/-! The operations of a checker as data, so that a run can be given as a list of them. -/

namespace Overrun

inductive Operation where
  | createThread (parent : Option ThreadId) (child : ThreadId)
  | startThread (tid : ThreadId) (sp : UInt64)
  | exitThread (tid : ThreadId)
  | call (tid : ThreadId) (hook : CallHook)
  | unwind (tid : ThreadId) (sp : UInt64)
  | access (tid : ThreadId) (hook : AccessHook)
  | classify (tid : ThreadId) (access : Access) (vector : VectorRef)
  | loadGlobals (handle : UInt64)
  | unmap (region : Span)
  | internVector (blocks : List StackBlock)
  | vectorAt (instruction : UInt64)
  | instrument (block : Guest.SuperBlock) (layout : Guest.Layout) (hooks : Hooks)
  | takeDiagnostics
  | summarize
  deriving DecidableEq, Repr

/-- What an operation gives back. -/
inductive Reply where
  | done
  | vector (v : VectorRef)
  | invariant (inv : Invariant)
  | block (result : Except InstrumentError Guest.SuperBlock)
  | diagnostics (taken : List Diagnostic)
  | statistics (s : Statistics)

def Outcome.map {α β : Type} (f : α → β) (o : Outcome α) : Outcome β :=
  ⟨f o.value, o.checker, o.events⟩

namespace Checker

def step (env : Environment) (c : Checker) : Operation → Except Fault (Outcome Reply)
  | .createThread parent child => (c.createThread parent child).map (·.map fun () => .done)
  | .startThread tid sp => (c.startThread tid sp).map (·.map fun () => .done)
  | .exitThread tid => .ok ((c.exitThread tid).map fun () => .done)
  | .call tid hook => (c.call tid hook).map (·.map fun () => .done)
  | .unwind tid sp => (c.unwind tid sp).map (·.map fun () => .done)
  | .access tid hook => (c.access env tid hook).map (·.map fun () => .done)
  | .classify tid access vector => (c.classify tid access vector).map (·.map .invariant)
  | .loadGlobals handle => (c.loadGlobals env handle).map (·.map fun () => .done)
  | .unmap region => (c.unmap region).map (·.map fun () => .done)
  | .internVector blocks =>
    let (v, c) := c.internVector blocks
    .ok ⟨.vector v, c, []⟩
  | .vectorAt instruction => .ok ((c.vectorAt env instruction).map .vector)
  | .instrument block layout hooks =>
    match c.instrument env block layout hooks with
    | .ok o => .ok (o.map .block)
    | .error fault => .error (.guest fault)
  | .takeDiagnostics => .ok (c.takeDiagnostics.map .diagnostics)
  | .summarize => .ok (c.summarize.map .statistics)

/-- Runs the operations in order; the environment may change from one to the next. The first fault
ends the run. -/
def run (c : Checker) : List (Environment × Operation) → Except Fault (Checker × List Reply)
  | [] => .ok (c, [])
  | (env, op) :: rest => do
    let o ← c.step env op
    let (c, replies) ← o.checker.run rest
    return (c, o.value :: replies)

end Checker

end Overrun
