import Overrun.Environment.Basic

/-! An environment that answers from tables. Of two entries for one key the first counts. -/

namespace Overrun

structure RecordedCode where
  bytes : List UInt8
  /-- How much code there is said to be, where that is not what was read. -/
  claimed : Option Nat
  deriving DecidableEq, Repr

structure Recorded where
  stackBlocks : List (UInt64 × List StackBlock)
  globalBlocks : List (UInt64 × List GlobalBlock)
  code : List (UInt64 × RecordedCode)
  callStacks : List (ThreadId × List UInt64)
  currentThread : ThreadId
  /-- Neither call stacks nor code can be had. -/
  bare : Bool
  deriving DecidableEq, Repr

namespace Recorded

def empty : Recorded :=
  ⟨[], [], [], [], ⟨0⟩, false⟩

instance : Inhabited Recorded := ⟨empty⟩

/-- The tables of `old` with the entries of `new` put in front of them one by one. -/
def extend (old new : Recorded) : Recorded where
  stackBlocks := new.stackBlocks.reverse ++ old.stackBlocks
  globalBlocks := new.globalBlocks.reverse ++ old.globalBlocks
  code := new.code.reverse ++ old.code
  callStacks := new.callStacks.reverse ++ old.callStacks
  currentThread := new.currentThread
  bare := new.bare

def readCode (r : Recorded) (address : UInt64) (window : Nat) : CodeRead :=
  match if r.bare then none else r.code.lookup address with
  | none => ⟨[], 0⟩
  | some code =>
    let bytes := code.bytes.take window
    ⟨bytes, code.claimed.getD bytes.length⟩

def environment (r : Recorded) : Environment where
  currentThread := r.currentThread
  stackBlocksAt instruction arraysOnly :=
    ((r.stackBlocks.lookup instruction).getD []).filter fun b => !arraysOnly || b.isArray
  globalBlocksOf handle arraysOnly :=
    ((r.globalBlocks.lookup handle).getD []).filter fun b => !arraysOnly || b.isArray
  callStackOf tid :=
    if r.bare then [] else (r.callStacks.lookup tid).getD []
  readCode := r.readCode

end Recorded

end Overrun
