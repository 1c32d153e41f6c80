import Overrun.Checker.Operation

/-! The checker that instrumented code reports to. There is at most one, and code that runs while there
is none leaves a warning. -/

namespace Overrun

structure Session where
  installed : Option Checker
  deriving DecidableEq

/-- A call of one of the hooks, on behalf of whatever thread is running. -/
inductive HookCall where
  | access (hook : AccessHook)
  /-- `adjust` takes the stack pointer after the call back to what it was before. -/
  | call (spAfter fp returnAddress : UInt64) (vector : VectorRef) (adjust : Int64)
  | unwind (sp : UInt64)
  | globalsLoaded (handle : UInt64)
  | unmapped (region : Span)
  deriving DecidableEq, Repr

namespace HookCall

def name : HookCall → String
  | access _ => "sg_on_memory_access"
  | call .. => "sg_on_call"
  | unwind _ => "sg_on_stack_unwind"
  | globalsLoaded _ => "sg_on_globals_loaded"
  | unmapped _ => "sg_on_region_unmapped"

def operation (tid : ThreadId) : HookCall → Operation
  | access hook => .access tid hook
  | call spAfter fp returnAddress vector adjust =>
    .call tid ⟨spAfter + adjust.toUInt64, spAfter, fp, returnAddress, vector⟩
  | unwind sp => .unwind tid sp
  | globalsLoaded handle => .loadGlobals handle
  | unmapped region => .unmap region

end HookCall

/-- The session's own hooks. Where they lie in memory is not known here. -/
def Hooks.standard : Hooks :=
  ⟨⟨"sg_on_memory_access", 0⟩, ⟨"sg_on_call", 0⟩⟩

namespace Session

def empty : Session := ⟨none⟩

instance : Inhabited Session := ⟨empty⟩

def install (s : Session) (c : Checker) : Option Checker × Session :=
  (s.installed, ⟨some c⟩)

def uninstall (s : Session) : Option Checker × Session :=
  (s.installed, ⟨none⟩)

def isInstalled (s : Session) : Bool :=
  s.installed.isSome

def hook (env : Environment) (s : Session) (h : HookCall) : Except Fault (Session × List Event) :=
  match s.installed with
  | none => .ok (s, [.noChecker h.name])
  | some c => do
    let o ← c.step env (h.operation env.currentThread)
    return (⟨some o.checker⟩, o.events)

/-- Performs an operation on the installed checker, if there is one. -/
def perform (env : Environment) (s : Session) (op : Operation) :
    Except Fault (Option Reply × Session × List Event) :=
  match s.installed with
  | none => .ok (none, s, [])
  | some c => do
    let o ← c.step env op
    return (some o.value, ⟨some o.checker⟩, o.events)

def instrument (env : Environment) (s : Session) (block : Guest.SuperBlock)
    (layout : Guest.Layout) :
    Except Guest.Fault (Except InstrumentError Guest.SuperBlock × Session × List Event) :=
  match s.installed with
  | none => .ok (.error .notInstalled, s, [])
  | some c => do
    let o ← c.instrument env block layout .standard
    return (o.value, ⟨some o.checker⟩, o.events)

end Session

end Overrun
