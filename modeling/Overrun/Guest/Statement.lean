import Overrun.Guest.Operand

/-! Expressions and statements of guest code. Operands are flat, so guest memory is only touched by
a load, a store, a compare-and-swap or the declared effect of a helper call. -/

namespace Overrun.Guest

inductive UnOp where
  | widen8U
  | widen16U
  | widen32U
  | widen32S
  | narrow64
  | not32
  | not64
  deriving DecidableEq, Repr

inductive BinOp where
  | add32
  | add64
  | sub32
  | sub64
  | and64
  | or64
  | xor64
  | shl64
  | equal64
  | lessU64
  deriving DecidableEq, Repr

inductive Expr where
  | atom (a : Atom)
  /-- Reads the guest state. -/
  | get (offset : UInt32) (ty : Ty)
  /-- Reads guest memory. -/
  | load (endian : Endian) (ty : Ty) (addr : Atom)
  | unop (op : UnOp) (arg : Atom)
  | binop (op : BinOp) (lhs rhs : Atom)
  deriving DecidableEq, Repr

inductive JumpKind where
  | boring
  | call
  | ret
  | syscall
  | noDecode
  | trap
  deriving DecidableEq, Repr

/-- A helper outside the guest code. -/
structure Callee where
  name : String
  address : UInt64
  deriving DecidableEq, Repr

inductive EffectKind where
  | read
  | write
  | modify
  deriving DecidableEq, Repr

/-- What a helper does to guest memory. -/
structure MemoryEffect where
  kind : EffectKind
  addr : Atom
  size : UInt32
  deriving DecidableEq, Repr

/-- Reads `addr` into `old` and writes `data` there if what it read is `expected`, in one step. -/
structure CompareSwap where
  old : Temp
  endian : Endian
  addr : Atom
  expected : Atom
  data : Atom
  deriving DecidableEq, Repr

structure HelperCall where
  callee : Callee
  guard : Option Atom
  args : List Atom
  result : Option Temp
  effect : Option MemoryEffect
  deriving DecidableEq, Repr

inductive Stmt where
  | nop
  /-- The statements of the instruction at `address` start here. -/
  | mark (address : UInt64) (length : UInt32) (delta : UInt8)
  /-- Writes the guest state. -/
  | put (offset : UInt32) (data : Atom)
  | assign (temp : Temp) (expr : Expr)
  | store (endian : Endian) (addr data : Atom)
  | swap (swap : CompareSwap)
  | call (call : HelperCall)
  | fence
  /-- Leaves the block for `target` if `guard` holds. -/
  | exit (guard : Atom) (kind : JumpKind) (target : Const) (ipOffset : UInt32)
  deriving DecidableEq, Repr

namespace UnOp

def all : List UnOp := [widen8U, widen16U, widen32U, widen32S, narrow64, not32, not64]

def ty : UnOp → Ty
  | widen8U | widen16U | widen32U | widen32S | not64 => .i64
  | narrow64 | not32 => .i32

def text : UnOp → String
  | widen8U => "8Uto64"
  | widen16U => "16Uto64"
  | widen32U => "32Uto64"
  | widen32S => "32Sto64"
  | narrow64 => "64to32"
  | not32 => "Not32"
  | not64 => "Not64"

instance : ToString UnOp := ⟨text⟩

end UnOp

namespace BinOp

def all : List BinOp :=
  [add32, add64, sub32, sub64, and64, or64, xor64, shl64, equal64, lessU64]

def ty : BinOp → Ty
  | add32 | sub32 => .i32
  | add64 | sub64 | and64 | or64 | xor64 | shl64 => .i64
  | equal64 | lessU64 => .i1

def text : BinOp → String
  | add32 => "Add32"
  | add64 => "Add64"
  | sub32 => "Sub32"
  | sub64 => "Sub64"
  | and64 => "And64"
  | or64 => "Or64"
  | xor64 => "Xor64"
  | shl64 => "Shl64"
  | equal64 => "CmpEQ64"
  | lessU64 => "CmpLT64U"

instance : ToString BinOp := ⟨text⟩

end BinOp

namespace JumpKind

def all : List JumpKind := [boring, call, ret, syscall, noDecode, trap]

def text : JumpKind → String
  | boring => "Boring"
  | call => "Call"
  | ret => "Return"
  | syscall => "Syscall"
  | noDecode => "NoDecode"
  | trap => "SigTRAP"

instance : ToString JumpKind := ⟨text⟩

end JumpKind

def Expr.isLoad : Expr → Bool
  | load .. => true
  | _ => false

namespace Stmt

def isMark : Stmt → Bool
  | mark .. => true
  | _ => false

def referencesMemory : Stmt → Bool
  | assign _ expr => expr.isLoad
  | store .. | swap _ => true
  | call c => c.effect.isSome
  | _ => false

end Stmt

end Overrun.Guest
