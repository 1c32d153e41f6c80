import Overrun.Checker.Basic
import Overrun.Thread.Call

/-! Threads come, call, return and go. -/

namespace Overrun.Checker

/-- Puts a thread without activations into its slot, whatever was there. -/
def createThread (c : Checker) (parent : Option ThreadId) (child : ThreadId) :
    Except Fault (Outcome Unit) :=
  if child.index < c.threads.length then
    .ok ⟨(), c.setThread child (.initial c.config.recentHits), [.threadCreated parent child]⟩
  else .error (.tooManyThreads child c.threads.length)

/-- Pushes the activation a thread starts in. -/
def startThread (c : Checker) (tid : ThreadId) (sp : UInt64) : Except Fault (Outcome Unit) := do
  let t ← c.thread tid
  let t := { t with stack := t.stack.push (.entered sp 0) }
  let statistics := { c.statistics with pushed := c.statistics.pushed + 1 }
  return ⟨(), { c.setThread tid t with statistics := statistics }, [.threadStarted tid sp]⟩

/-- A thread that is not there may exit. -/
def exitThread (c : Checker) (tid : ThreadId) : Outcome Unit :=
  match c.thread? tid with
  | some t => ⟨(), c.setSlot tid none, [.threadExited tid t.depth t.registered.size]⟩
  | none => ⟨(), c, []⟩

/-- Registers the blocks of the caller and pushes an activation for the callee. -/
def call (c : Checker) (tid : ThreadId) (hook : CallHook) : Except Fault (Outcome Unit) := do
  let t ← c.thread tid
  let blocks ← c.catalog.vector hook.vector
  let called ← t.call tid hook blocks
  let statistics := { c.statistics with
    registered := c.statistics.registered + called.added
    pushed := c.statistics.pushed + 1 }
  let c := { c.setThread tid called.thread with statistics := statistics }
  c.selfCheck
  return ⟨(), c, called.events⟩

/-- Pops the activations that the stack pointer has risen above. -/
def unwind (c : Checker) (tid : ThreadId) (sp : UInt64) : Except Fault (Outcome Unit) := do
  let t ← c.thread tid
  let unwound ← t.unwind tid sp
  let statistics := { c.statistics with
    released := c.statistics.released + unwound.released
    popped := c.statistics.popped + unwound.popped }
  let c := { c.setThread tid unwound.thread with statistics := statistics }
  if unwound.popped > 0 then c.selfCheck
  return ⟨(), c, unwound.events⟩

end Overrun.Checker
