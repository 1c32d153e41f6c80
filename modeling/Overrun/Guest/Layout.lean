import Overrun.Guest.Operand
import Overrun.Target

/-! Where each machine keeps its stack, frame and instruction pointers in the guest state, how wide
its words are and what the end of a function looks like in its code. -/

namespace Overrun.Guest

structure Layout where
  architecture : Architecture
  spOffset : UInt32
  fpOffset : UInt32
  ipOffset : UInt32
  endian : Endian
  /-- A call leaves the stack pointer one word below where it was. -/
  callPushesReturn : Bool
  /-- Code of function ends that read the stack outside every block. -/
  epilogues : List (List UInt8)
  /-- Bytes to look at when searching for such an end. -/
  epilogueWindow : Nat
  deriving DecidableEq, Repr

namespace Layout

/-- Restore the frame pointer and return, in the two ways the x86 family does it. -/
def x86FamilyEpilogues : List (List UInt8) := [[0x5d, 0xc3], [0xc9, 0xc3]]

def of : Architecture → Layout
  | .x86 => ⟨.x86, 24, 28, 68, .little, true, x86FamilyEpilogues, 2⟩
  | .amd64 => ⟨.amd64, 48, 56, 184, .little, true, x86FamilyEpilogues, 2⟩
  | .arm64 => ⟨.arm64, 264, 248, 272, .little, false, [], 0⟩
  | .ppc64 => ⟨.ppc64, 24, 264, 1296, .big, false, [], 0⟩

def wordTy (layout : Layout) : Ty :=
  if layout.architecture.wordSize = 4 then .i32 else .i64

/-- The low bits of `value` as a machine word. -/
def wordConst (layout : Layout) (value : UInt64) : Const :=
  if layout.architecture.wordSize = 4 then .i32 value.toUInt32 else .i64 value

/-- Where the low `size` bytes of the slot at `offset` lie. -/
def subSlot (layout : Layout) (offset slotSize size : UInt32) : UInt32 :=
  match layout.endian with
  | .little => offset
  | .big => offset + slotSize - size

def isEpilogue (layout : Layout) (code : List UInt8) : Bool :=
  layout.epilogues.any (·.isPrefixOf code)

end Layout

end Overrun.Guest
