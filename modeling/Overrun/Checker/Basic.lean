import Overrun.Checker.Config
import Overrun.Consistency.Audit
import Overrun.Environment.Basic
import Overrun.Report.Diagnostic
import Overrun.Report.Event
import Overrun.Target
import Overrun.Thread.Classify

/-! The state of a checker, and what its operations have in common. -/

namespace Overrun

structure Checker where
  config : Config
  target : Target
  catalog : Catalog
  /-- One slot for each thread there may be. -/
  threads : List (Option Thread)
  globals : IntervalMap GlobalRef
  /-- The vectors of the instructions whose blocks are known. -/
  vectors : List (UInt64 × VectorRef)
  report : Report
  statistics : Statistics
  /-- Warnings of overlapping globals still to be given. -/
  overlapWarnings : Nat
  deriving DecidableEq

/-- The result of an operation, the state after it and what it did on the way. -/
structure Outcome (α : Type) where
  value : α
  checker : Checker
  events : List Event

namespace Checker

def initialOverlapWarnings : Nat := 3

def initial (config : Config) (target : Target) : Checker where
  config := config
  target := target
  catalog := ∅
  threads := List.replicate config.maxThreads none
  globals := ∅
  vectors := []
  report := ∅
  statistics := .zero
  overlapWarnings := initialOverlapWarnings

def thread? (c : Checker) (tid : ThreadId) : Option Thread :=
  c.threads[tid.index]?.join

def thread (c : Checker) (tid : ThreadId) : Except Fault Thread :=
  match c.threads[tid.index]? with
  | some (some t) => .ok t
  | some none => .error (.threadNotCreated tid)
  | none => .error (.threadBeyondSlots tid)

def setSlot (c : Checker) (tid : ThreadId) (t : Option Thread) : Checker :=
  { c with threads := c.threads.set tid.index t }

def setThread (c : Checker) (tid : ThreadId) (t : Thread) : Checker :=
  c.setSlot tid (some t)

def liveThreads (c : Checker) : List (ThreadId × Thread) :=
  c.threads.zipIdx.filterMap fun (t, index) => t.map (⟨index⟩, ·)

def audit (c : Checker) : List Violation :=
  auditGlobals c.globals
    ++ c.liveThreads.flatMap fun (tid, t) => t.audit tid ++ t.auditInvariants tid c.globals

/-- Faults if the checker is to watch itself and finds a contradiction. -/
def selfCheck (c : Checker) : Except Fault Unit :=
  if c.config.checksItself then
    match c.audit with
    | [] => .ok ()
    | first :: rest => .error (.inconsistent (rest.length + 1) first)
  else .ok ()

def internVector (c : Checker) (blocks : List StackBlock) : VectorRef × Checker :=
  let (v, catalog) := c.catalog.internVector blocks
  (v, { c with catalog := catalog })

/-- The vector of an instruction. The debug information is asked once for each instruction and its
answer kept. -/
def vectorAt (env : Environment) (c : Checker) (instruction : UInt64) : Outcome VectorRef :=
  match c.vectors.lookup instruction with
  | some v => ⟨v, c, []⟩
  | none =>
    let (v, c) := c.internVector (env.stackBlocksAt instruction c.config.arraysOnly)
    ⟨v, { c with vectors := (instruction, v) :: c.vectors }, [.consulted instruction]⟩

end Checker

end Overrun
