import Overrun.Block.Descriptor
import Overrun.Thread.Id

/-! What a checker asks of the world around it. The answers may change between operations. -/

namespace Overrun

/-- Code read into a window of zeros, and how much of it the reader says there is. -/
structure CodeRead where
  bytes : List UInt8
  available : Nat
  deriving DecidableEq, Repr

/-- The bytes to go by: no more than asked for, and no more than there are said to be. -/
def CodeRead.seen (r : CodeRead) (window : Nat) : List UInt8 :=
  (r.bytes.take window ++ List.replicate (window - r.bytes.length) 0).take r.available

structure Environment where
  currentThread : ThreadId
  /-- Blocks in scope at an instruction, or only the arrays among them. -/
  stackBlocksAt : (instruction : UInt64) → (arraysOnly : Bool) → List StackBlock
  /-- Blocks of the objects that `handle` stands for, or only the arrays among them. -/
  globalBlocksOf : (handle : UInt64) → (arraysOnly : Bool) → List GlobalBlock
  callStackOf : ThreadId → List UInt64
  readCode : (address : UInt64) → (window : Nat) → CodeRead

end Overrun
