import Overrun.Block.Handle
import Overrun.Consistency.Violation
import Overrun.Guest.SuperBlock

/-! Ways in which the checker can be used against its rules, or find that it has broken its own. An
operation that faults has no result and leaves no state behind. -/

namespace Overrun

inductive Fault where
  | guest (fault : Guest.Fault)
  /-- A handle or a position is not below `length`. -/
  | outOfRange (length index : Nat)
  | zeroInstruction
  | vectorsDiffer (instruction : UInt64) (known given : VectorRef)
  | tableFull (used slots : Nat)
  | storedTwice (instruction : UInt64)
  | appearedWhileGrowing (instruction : UInt64)
  /-- A search ended at a slot that holds nothing. -/
  | emptySlot
  | sentinelPopped
  /-- A new thread has no slot to go into. -/
  | tooManyThreads (tid : ThreadId) (slots : Nat)
  | threadBeyondSlots (tid : ThreadId)
  | threadNotCreated (tid : ThreadId)
  | blockOverlaps (tid : ThreadId) (name : String) (overlap : Overlap)
  | blockNotRegistered (tid : ThreadId) (address : UInt64)
  | inconsistent (violations : Nat) (first : Violation)
  deriving DecidableEq

def Fault.message : Fault → String
  | guest fault => fault.message
  | outOfRange length index =>
    s!"index out of bounds: the len is {length} but the index is {index}"
  | zeroInstruction => "instruction address 0 used as an instance key"
  | vectorsDiffer instruction known given =>
    "assertion `left == right` failed: instruction " ++ Text.hex instruction
      ++ s!" reached with two different block vectors\n  left: {known}\n right: {given}"
  | tableFull used slots =>
    s!"instance table full ({used} of {slots} slots) without having grown"
  | storedTwice instruction => "instruction " ++ Text.hex instruction ++ " stored twice"
  | appearedWhileGrowing instruction =>
    "internal error: entered unreachable code: " ++ Text.hex instruction
      ++ " appeared while growing the instance table"
  | emptySlot => "internal error: entered unreachable code: probed instance slot is empty"
  | sentinelPopped => "attempt to pop the sentinel activation"
  | tooManyThreads tid slots => s!"{tid} exceeds the {slots} configured thread slots"
  | threadBeyondSlots tid => s!"{tid} exceeds the configured thread slots"
  | threadNotCreated tid => s!"{tid} used before it was created"
  | blockOverlaps tid name overlap => s!"{tid}: stack block \"{name}\": {overlap}"
  | blockNotRegistered tid address =>
    s!"{tid}: registered stack block at " ++ Text.hex address
      ++ " is missing from the stack tree"
  | inconsistent violations first =>
    s!"checker state is inconsistent ({violations} violations): " ++ first.message

end Overrun
