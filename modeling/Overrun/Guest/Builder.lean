import Overrun.Guest.Layout
import Overrun.Guest.SuperBlock

/-! A block under construction. Each operation appends the statements it needs, and those that
yield a value return the temporary that holds it. -/

namespace Overrun.Guest

/-- Helpers take at most this many arguments. -/
def maxHelperArgs : Nat := 6

inductive BuildError where
  | tooManyArguments (callee : String) (given : Nat)
  /-- A value of type `ty` cannot be passed to a helper. -/
  | notHostWord (ty : Ty)
  deriving DecidableEq, Repr

def BuildError.message : BuildError → String
  | tooManyArguments callee given =>
    s!"dirty call to `{callee}` takes {given} arguments, at most 6 are allowed"
  | notHostWord ty => s!"dirty call argument of type `{ty}` is not a host word"

structure Builder where
  block : SuperBlock
  layout : Layout
  deriving DecidableEq, Repr

/-- The unsigned operation that makes a 64-bit host word of a narrower integer. -/
def UnOp.widening? : Ty → Option UnOp
  | .i32 => some .widen32U
  | .i16 => some .widen16U
  | .i8 => some .widen8U
  | _ => none

namespace Builder

def empty (layout : Layout) : Builder :=
  ⟨.empty layout.ipOffset, layout⟩

/-- Starts with the temporaries and the end of `template`, but none of its statements. -/
def ofTemplate (template : SuperBlock) (layout : Layout) : Builder :=
  ⟨template.withoutStmts, layout⟩

def push (b : Builder) (stmt : Stmt) : Builder :=
  { b with block := { b.block with stmts := b.block.stmts ++ [stmt] } }

def newTemp (b : Builder) (ty : Ty) : Temp × Builder :=
  (⟨b.block.temps.length⟩, { b with block := { b.block with temps := b.block.temps ++ [ty] } })

def mark (b : Builder) (address : UInt64) (length : UInt32) : Builder :=
  b.push (.mark address length 0)

def assign (b : Builder) (ty : Ty) (expr : Expr) : Temp × Builder :=
  let (temp, b) := b.newTemp ty
  (temp, b.push (.assign temp expr))

def get (b : Builder) (offset : UInt32) (ty : Ty) : Temp × Builder :=
  b.assign ty (.get offset ty)

/-- Reads a whole word of the guest state. -/
def getSlot (b : Builder) (offset : UInt32) : Temp × Builder :=
  b.get offset b.layout.wordTy

/-- Reads the low bytes of the word at `offset` as a value of type `ty`. -/
def getSubSlot (b : Builder) (offset : UInt32) (ty : Ty) : Temp × Builder :=
  b.get (b.layout.subSlot offset b.layout.wordTy.size ty.size) ty

def loadSp (b : Builder) : Temp × Builder :=
  b.getSlot b.layout.spOffset

def loadFp (b : Builder) : Temp × Builder :=
  b.getSlot b.layout.fpOffset

def load (b : Builder) (ty : Ty) (addr : Atom) : Temp × Builder :=
  b.assign ty (.load b.layout.endian ty addr)

def store (b : Builder) (addr data : Atom) : Builder :=
  b.push (.store b.layout.endian addr data)

/-- The old value has the type of the expected one. -/
def swap (b : Builder) (addr expected data : Atom) : Except Fault (Temp × Builder) := do
  let ty ← b.block.atomTy expected
  let (old, b) := b.newTemp ty
  return (old, b.push (.swap ⟨old, b.layout.endian, addr, expected, data⟩))

def put (b : Builder) (offset : UInt32) (data : Atom) : Builder :=
  b.push (.put offset data)

def unop (b : Builder) (op : UnOp) (arg : Atom) : Temp × Builder :=
  b.assign op.ty (.unop op arg)

def binop (b : Builder) (op : BinOp) (lhs rhs : Atom) : Temp × Builder :=
  b.assign op.ty (.binop op lhs rhs)

/-- Makes a host word of `atom` with the same unsigned value. A narrow constant becomes a wide one
and a narrow temporary is widened into a fresh one. -/
def widen (b : Builder) (atom : Atom) : Except Fault (Except BuildError Atom × Builder) := do
  let ty ← b.block.atomTy atom
  if ty = .i64 then
    return (.ok atom, b)
  else match UnOp.widening? ty with
    | none => return (.error (.notHostWord ty), b)
    | some op =>
      match atom with
      | .const c => return (.ok (.const (.i64 c.value)), b)
      | .temp _ =>
        let (temp, b) := b.unop op atom
        return (.ok (.temp temp), b)

/-- Stops at the first atom that is no host word, and keeps what it has appended by then. -/
def widenAll (b : Builder) : List Atom → Except Fault (Except BuildError (List Atom) × Builder)
  | [] => .ok (.ok [], b)
  | atom :: rest => do
    match ← b.widen atom with
    | (.error e, b) => return (.error e, b)
    | (.ok atom, b) =>
      match ← b.widenAll rest with
      | (.error e, b) => return (.error e, b)
      | (.ok atoms, b) => return (.ok (atom :: atoms), b)

/-- Calls `callee` with its arguments widened to host words. -/
def callHelper (b : Builder) (callee : Callee) (args : List Atom) (effect : Option MemoryEffect) :
    Except Fault (Except BuildError Unit × Builder) := do
  if args.length > maxHelperArgs then
    return (.error (.tooManyArguments callee.name args.length), b)
  else
    match ← b.widenAll args with
    | (.error e, b) => return (.error e, b)
    | (.ok args, b) => return (.ok (), b.push (.call ⟨callee, none, args, none, effect⟩))

def exit (b : Builder) (guard : Atom) (kind : JumpKind) (target : UInt64) : Builder :=
  b.push (.exit guard kind (b.layout.wordConst target) b.block.ipOffset)

def finish (b : Builder) (next : Atom) (jump : JumpKind) : SuperBlock :=
  { b.block with next := next, jump := jump }

end Builder

end Overrun.Guest
