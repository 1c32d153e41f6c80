import Overrun.Report.Event
import Overrun.Thread.Basic

/-! Calls and returns. A call registers the caller's blocks where they lie and pushes an activation; when
the stack pointer rises above an activation it is popped and its caller's blocks are released. -/

namespace Overrun

/-- What the code before a call passes on. -/
structure CallHook where
  spAtCall : UInt64
  spAfter : UInt64
  fp : UInt64
  returnAddress : UInt64
  vector : VectorRef
  deriving DecidableEq, Repr

/-- Registered intervals, where those just added start, and what there is to log. -/
structure Registered where
  map : IntervalMap Registration
  added : List UInt64
  events : List Event
  deriving DecidableEq

/-- Registers `blocks` in order, where `index` is the position of the first of them in the vector. A
block that does not fit in the address space is left out; one that overlaps another is a fault. -/
def registerBlocks (tid : ThreadId) (hook : CallHook) (depth : Nat) (index : Nat)
    (map : IntervalMap Registration) : List StackBlock → Except Fault Registered
  | [] => .ok ⟨map, [], []⟩
  | block :: rest =>
    let address := block.address hook.spAtCall hook.fp
    match Interval.ofSize? address block.size with
    | none => do
      let r ← registerBlocks tid hook depth (index + 1) map rest
      return { r with events := .blockWraps tid block.name address :: r.events }
    | some interval =>
      match map.insert interval ⟨⟨hook.vector, index⟩, depth⟩ with
      | .error overlap => .error (.blockOverlaps tid block.name overlap)
      | .ok (_, map) => do
        let r ← registerBlocks tid hook depth (index + 1) map rest
        return ⟨r.map, address :: r.added,
          .blockRegistered tid block.name interval depth :: r.events⟩

def releaseBlocks (tid : ThreadId) (map : IntervalMap Registration) :
    List UInt64 → Except Fault (IntervalMap Registration)
  | [] => .ok map
  | address :: rest =>
    match map.takeAt? address with
    | none => .error (.blockNotRegistered tid address)
    | some (_, map) => releaseBlocks tid map rest

namespace Thread

/-- A thread after a call, with how many blocks were registered for it. -/
structure Called where
  thread : Thread
  added : Nat
  events : List Event
  deriving DecidableEq

def call (t : Thread) (tid : ThreadId) (hook : CallHook) (blocks : List StackBlock) :
    Except Fault Called := do
  let r ← registerBlocks tid hook t.depth 0 t.registered blocks
  let caller := { t.stack.top with
    spAtCall := hook.spAtCall, fpAtCall := hook.fp, registered := r.added }
  let stack := { t.stack with top := caller }.push (.entered hook.spAfter hook.returnAddress)
  return {
    thread := ⟨stack, r.map, if r.added.isEmpty then t.hits else t.hits.clear⟩
    added := r.added.length
    events := r.events
      ++ [.activationPushed tid (t.depth + 1) hook.spAfter hook.returnAddress] }

/-- A thread after an unwind, with how many activations were popped and blocks released. -/
structure Unwound where
  thread : Thread
  popped : Nat
  released : Nat
  events : List Event
  deriving DecidableEq

/-- Pops `callee` and those below it while `sp` is above them. -/
def popAbove (tid : ThreadId) (sp : UInt64) (map : IntervalMap Registration)
    (hits : RecentHits Registration) (callee : Activation) :
    List Activation → Except Fault Unwound
  | [] =>
    if callee.creationSp < sp then .error .sentinelPopped
    else .ok ⟨⟨⟨callee, []⟩, map, hits⟩, 0, 0, []⟩
  | caller :: below =>
    if callee.creationSp < sp then do
      let map ← releaseBlocks tid map caller.registered
      let hits := if caller.registered.isEmpty then hits else hits.clear
      let u ← popAbove tid sp map hits { caller with registered := [] } below
      return {
        thread := u.thread
        popped := u.popped + 1
        released := u.released + caller.registered.length
        events := .activationPopped tid (below.length + 1) callee.creationSp sp :: u.events }
    else .ok ⟨⟨⟨callee, caller :: below⟩, map, hits⟩, 0, 0, []⟩

def unwind (t : Thread) (tid : ThreadId) (sp : UInt64) : Except Fault Unwound :=
  popAbove tid sp t.registered t.hits t.stack.top t.stack.below

end Thread

end Overrun
