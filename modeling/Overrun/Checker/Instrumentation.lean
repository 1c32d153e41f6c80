import Overrun.Checker.Basic
import Overrun.Guest.Builder
import Overrun.Report.Diagnostic

/-! Calls of the hooks are put into guest code: one before the first memory reference of each
instruction, and one at the end of a block that ends in a call. All other code stays as it is. -/

namespace Overrun

open Guest

inductive InstrumentError where
  | accessBeforeMark (index : Nat)
  | callWithoutMark
  | zeroAddress (address : UInt64)
  | architectureMismatch (block checker : Architecture)
  | notInstalled
  | build (error : BuildError)
  deriving DecidableEq, Repr

def InstrumentError.message : InstrumentError → String
  | accessBeforeMark index => s!"memory access in statement {index} precedes the first IMark"
  | callWithoutMark => "block ends in a call but has no IMark"
  | zeroAddress address =>
    "instruction address " ++ Text.hex address ++ " can't be instrumented"
  | architectureMismatch block checker =>
    s!"guest architecture `{block}` doesn't match the checker's `{checker}`"
  | notInstalled => "no checker installed"
  | build error => error.message

/-- The helpers that instrumented code calls. -/
structure Hooks where
  access : Callee
  call : Callee
  deriving DecidableEq, Repr

structure MemoryRef where
  addr : Atom
  size : UInt32
  kind : AccessKind
  deriving DecidableEq, Repr

/-- The size as it is passed on: negative for a write. -/
def MemoryRef.signedSize (r : MemoryRef) : UInt64 :=
  match r.kind with
  | .read => r.size.toUInt64
  | .write => 0 - r.size.toUInt64

/-- How a statement touches guest memory. Of a compare-and-swap only the load counts. -/
def memoryRef? (block : SuperBlock) : Stmt → Except Guest.Fault (Option MemoryRef)
  | .assign _ (.load _ ty addr) => .ok (some ⟨addr, ty.size, .read⟩)
  | .store _ addr data => do return some ⟨addr, (← block.atomTy data).size, .write⟩
  | .swap s => do return some ⟨s.addr, (← block.atomTy s.expected).size, .read⟩
  | .call c => .ok <| c.effect.map fun effect =>
      ⟨effect.addr, effect.size, match effect.kind with
        | .read => .read
        | .write | .modify => .write⟩
  | _ => .ok none

def vectorArg (v : VectorRef) : Atom :=
  .const (.i64 (.ofNat v.index))

/-- Reads the stack and the frame pointer and calls the hook of a memory reference. -/
def insertAccessHook (b : Builder) (hook : Callee) (ref : MemoryRef) (instruction : UInt64)
    (vector : VectorRef) : Except Guest.Fault (Except BuildError Unit × Builder) :=
  let (sp, b) := b.loadSp
  let (fp, b) := b.loadFp
  b.callHelper hook
    [ref.addr, .temp sp, .temp fp, .const (.i64 ref.signedSize), .const (.i64 instruction),
      vectorArg vector] none

/-- Bytes by which a call moves the stack pointer. -/
def spAdjust (layout : Layout) (architecture : Architecture) : UInt64 :=
  if layout.callPushesReturn then architecture.wordSize.toUInt64 else 0

/-- Reads the stack and the frame pointer and calls the hook of a call. -/
def insertCallHook (b : Builder) (hook : Callee) (returnAddress : UInt64) (vector : VectorRef)
    (adjust : UInt64) : Except Guest.Fault (Except BuildError Unit × Builder) :=
  let (sp, b) := b.loadSp
  let (fp, b) := b.loadFp
  b.callHelper hook
    [.temp sp, .temp fp, .const (.i64 returnAddress), vectorArg vector, .const (.i64 adjust)] none

namespace Checker

/-- Longest piece of code a layout may look at to recognise the end of a function. -/
def maxEpilogueWindow : Nat := 16

/-- Whether the instruction at `address` begins the end of a function, whose stack read is no error. -/
def isSuppressed (env : Environment) (c : Checker) (layout : Layout) (address : UInt64) : Bool :=
  let window := min layout.epilogueWindow maxEpilogueWindow
  c.config.suppressEpilogues && window != 0
    && layout.isEpilogue ((env.readCode address window).seen window)

/-- The instruction whose statements are being copied. -/
structure CurrentInstruction where
  address : UInt64
  vector : VectorRef
  /-- Its first memory reference has been seen. -/
  referenced : Bool
  suppressed : Bool
  deriving DecidableEq, Repr

/-- How far a block has been copied. -/
structure Copying where
  checker : Checker
  builder : Builder
  current : Option CurrentInstruction
  events : List Event

namespace Copying

def push (p : Copying) (stmt : Stmt) : Copying :=
  { p with builder := p.builder.push stmt }

def enter (env : Environment) (p : Copying) (address : UInt64) : Copying :=
  let found := p.checker.vectorAt env address
  let suppressed := found.checker.isSuppressed env p.builder.layout address
  { p with
    checker := found.checker
    current := some ⟨address, found.value, false, suppressed⟩
    events := p.events ++ found.events }

/-- Makes room for a memory reference of the current instruction. Only the first is checked. -/
def meet (p : Copying) (hook : Callee) (index : Nat) (ref : MemoryRef) :
    Except Guest.Fault (Except InstrumentError Unit × Copying) :=
  match p.current with
  | none => .ok (.error (.accessBeforeMark index), p)
  | some current =>
    if current.referenced then .ok (.ok (), p)
    else
      let p := { p with current := some { current with referenced := true } }
      if current.suppressed then .ok (.ok (), p)
      else do
        let (r, b) ← insertAccessHook p.builder hook ref current.address current.vector
        return (r.mapError .build, { p with builder := b })

def copy (env : Environment) (source : SuperBlock) (hook : Callee) (p : Copying) (index : Nat)
    (stmt : Stmt) : Except Guest.Fault (Except InstrumentError Unit × Copying) := do
  match SuperBlock.mark? stmt with
  | some mark =>
    if mark.address = 0 then return (.error (.zeroAddress mark.address), p)
    else return (.ok (), (p.enter env mark.address).push stmt)
  | none =>
    match ← memoryRef? source stmt with
    | none => return (.ok (), p.push stmt)
    | some ref =>
      let (r, p) ← p.meet hook index ref
      return (r, p.push stmt)

/-- Copies the statements from position `index` on, up to the first error. -/
def copyAll (env : Environment) (source : SuperBlock) (hook : Callee) (p : Copying) (index : Nat) :
    List Stmt → Except Guest.Fault (Except InstrumentError Unit × Copying)
  | [] => .ok (.ok (), p)
  | stmt :: rest => do
    match ← p.copy env source hook index stmt with
    | (.error e, p) => return (.error e, p)
    | (.ok (), p) => copyAll env source hook p (index + 1) rest

/-- Appends what a block that ends in a call needs. -/
def close (env : Environment) (source : SuperBlock) (hook : Callee) (p : Copying) :
    Except Guest.Fault (Except InstrumentError Unit × Copying) :=
  if source.endsInCall then
    match source.lastMark? with
    | none => .ok (.error .callWithoutMark, p)
    | some mark => do
      let found := p.checker.vectorAt env mark.address
      let p := { p with checker := found.checker, events := p.events ++ found.events }
      let adjust := spAdjust p.builder.layout p.checker.target.architecture
      let returnAddress := mark.address + mark.length.toUInt64
      let (r, b) ← insertCallHook p.builder hook returnAddress found.value adjust
      return (r.mapError .build, { p with builder := b })
  else .ok (.ok (), p)

end Copying

/-- Instruments a block for the machine of the checker. On an error the state may have changed: the
vectors that were looked up are kept. -/
def instrument (env : Environment) (c : Checker) (source : SuperBlock) (layout : Layout)
    (hooks : Hooks) : Except Guest.Fault (Outcome (Except InstrumentError SuperBlock)) :=
  if layout.architecture = c.target.architecture then do
    let start : Copying := ⟨c, .ofTemplate source layout, none, []⟩
    match ← start.copyAll env source hooks.access 0 source.stmts with
    | (.error e, p) => return ⟨.error e, p.checker, p.events⟩
    | (.ok (), p) =>
      match ← p.close env source hooks.call with
      | (.error e, p) => return ⟨.error e, p.checker, p.events⟩
      | (.ok (), p) =>
        let block := p.builder.block
        return ⟨.ok block, p.checker, p.events ++ [.instrumented block]⟩
  else
    .ok ⟨.error (.architectureMismatch layout.architecture c.target.architecture), c, []⟩

end Checker

end Overrun
