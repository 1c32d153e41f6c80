import Overrun.Guest.Statement

/-! A run of guest instructions with one entry: typed temporaries, statements and where control
goes at the end. -/

namespace Overrun.Guest

/-- Ways in which guest code can be used against its own rules. -/
inductive Fault where
  /-- Only `count` temporaries exist. -/
  | unknownTemp (temp : Temp) (count : Nat)
  | noConstant (ty : Ty)
  deriving DecidableEq, Repr

def Fault.message : Fault → String
  | unknownTemp temp count =>
    s!"index out of bounds: the len is {count} but the index is {temp.index}"
  | noConstant ty => s!"no constant representation for `{ty}`"

def Const.ofTy (ty : Ty) (value : UInt64) : Except Fault Const :=
  match Const.ofTy? ty value with
  | some c => .ok c
  | none => .error (.noConstant ty)

structure SuperBlock where
  temps : List Ty
  stmts : List Stmt
  next : Atom
  jump : JumpKind
  /-- Where the guest state keeps the instruction pointer. -/
  ipOffset : UInt32
  deriving DecidableEq, Repr

namespace SuperBlock

def empty (ipOffset : UInt32) : SuperBlock where
  temps := []
  stmts := []
  next := .const (.i64 0)
  jump := .boring
  ipOffset := ipOffset

/-- The same block with nothing in it yet; its temporaries stay valid. -/
def withoutStmts (block : SuperBlock) : SuperBlock :=
  { block with stmts := [] }

def tempTy (block : SuperBlock) (t : Temp) : Except Fault Ty :=
  match block.temps[t.index]? with
  | some ty => .ok ty
  | none => .error (.unknownTemp t block.temps.length)

def atomTy (block : SuperBlock) : Atom → Except Fault Ty
  | .temp t => block.tempTy t
  | .const c => .ok c.ty

def exprTy (block : SuperBlock) : Expr → Except Fault Ty
  | .atom a => block.atomTy a
  | .get _ ty | .load _ ty _ => .ok ty
  | .unop op _ => .ok op.ty
  | .binop op _ _ => .ok op.ty

/-- An instruction as its mark in a block gives it. -/
structure Mark where
  address : UInt64
  length : UInt32
  delta : UInt8
  deriving DecidableEq, Repr

def mark? : Stmt → Option Mark
  | .mark address length delta => some ⟨address, length, delta⟩
  | _ => none

def marks (block : SuperBlock) : List Mark :=
  block.stmts.filterMap mark?

def addresses (block : SuperBlock) : List UInt64 :=
  block.marks.map (·.address)

/-- The instruction that the end of the block belongs to. -/
def lastMark? (block : SuperBlock) : Option Mark :=
  block.marks.getLast?

def endsInCall (block : SuperBlock) : Bool :=
  block.jump == .call

end SuperBlock

end Overrun.Guest
