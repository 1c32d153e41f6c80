import Overrun.Guest.Builder

/-! The builder's operations as data, so that a run of them can be given as a list. -/

namespace Overrun.Guest

inductive Build where
  | mark (address : UInt64) (length : UInt32)
  | newTemp (ty : Ty)
  | get (offset : UInt32) (ty : Ty)
  | getSlot (offset : UInt32)
  | getSubSlot (offset : UInt32) (ty : Ty)
  | loadSp
  | loadFp
  | load (ty : Ty) (addr : Atom)
  | store (addr data : Atom)
  | swap (addr expected data : Atom)
  | put (offset : UInt32) (data : Atom)
  | unop (op : UnOp) (arg : Atom)
  | binop (op : BinOp) (lhs rhs : Atom)
  | assign (ty : Ty) (expr : Expr)
  | widen (atom : Atom)
  | wordConst (value : UInt64)
  | callHelper (callee : Callee) (args : List Atom) (effect : Option MemoryEffect)
  | exit (guard : Atom) (kind : JumpKind) (target : UInt64)
  | push (stmt : Stmt)
  | atomTy (atom : Atom)
  deriving DecidableEq, Repr

/-- What an operation of the builder gives back. -/
inductive Built where
  | done
  | atom (a : Atom)
  | ty (ty : Ty)
  | failed (error : BuildError)
  deriving DecidableEq, Repr

namespace Builder

def ofTemp (made : Temp × Builder) : Except Fault (Built × Builder) :=
  .ok (.atom made.1, made.2)

def step (b : Builder) : Build → Except Fault (Built × Builder)
  | .mark address length => .ok (.done, b.mark address length)
  | .newTemp ty => ofTemp (b.newTemp ty)
  | .get offset ty => ofTemp (b.get offset ty)
  | .getSlot offset => ofTemp (b.getSlot offset)
  | .getSubSlot offset ty => ofTemp (b.getSubSlot offset ty)
  | .loadSp => ofTemp b.loadSp
  | .loadFp => ofTemp b.loadFp
  | .load ty addr => ofTemp (b.load ty addr)
  | .store addr data => .ok (.done, b.store addr data)
  | .swap addr expected data => do ofTemp (← b.swap addr expected data)
  | .put offset data => .ok (.done, b.put offset data)
  | .unop op arg => ofTemp (b.unop op arg)
  | .binop op lhs rhs => ofTemp (b.binop op lhs rhs)
  | .assign ty expr => ofTemp (b.assign ty expr)
  | .widen atom => do
    match ← b.widen atom with
    | (.ok a, b) => return (.atom a, b)
    | (.error e, b) => return (.failed e, b)
  | .wordConst value => .ok (.atom (.const (b.layout.wordConst value)), b)
  | .callHelper callee args effect => do
    match ← b.callHelper callee args effect with
    | (.ok (), b) => return (.done, b)
    | (.error e, b) => return (.failed e, b)
  | .exit guard kind target => .ok (.done, b.exit guard kind target)
  | .push stmt => .ok (.done, b.push stmt)
  | .atomTy atom => do return (.ty (← b.block.atomTy atom), b)

/-- Runs the operations in order; the first fault ends the run. -/
def run (b : Builder) : List Build → Except Fault (List Built × Builder)
  | [] => .ok ([], b)
  | op :: ops => do
    let (built, b) ← b.step op
    let (rest, b) ← b.run ops
    return (built :: rest, b)

end Builder

end Overrun.Guest
