/-! How much a checker keeps and how closely it watches itself. -/

namespace Overrun

inductive Level where
  | fast
  | standard
  | paranoid
  deriving DecidableEq, Repr

structure Config where
  level : Level
  /-- Only arrays are tracked. -/
  arraysOnly : Bool
  maxThreads : Nat
  /-- Diagnostics kept; zero keeps them all. -/
  maxDiagnostics : Nat
  /-- Leaves out the stack read at the end of a function. -/
  suppressEpilogues : Bool
  /-- Recent hits kept for each thread; zero keeps none. -/
  recentHits : Nat
  deepChecks : Bool
  deriving DecidableEq, Repr

namespace Config

/-- Levels differ in the limit of the report and in self-checking only. -/
def ofLevel (level : Level) : Config where
  level := level
  arraysOnly := true
  maxThreads := 500
  maxDiagnostics := match level with
    | .fast => 100
    | .standard => 1000
    | .paranoid => 0
  suppressEpilogues := true
  recentHits := 16
  deepChecks := level == .paranoid

def default : Config := ofLevel .standard

instance : Inhabited Config := ⟨default⟩

/-- Whether the state is searched for contradictions after each change to the registered blocks. -/
def checksItself (c : Config) : Bool :=
  c.deepChecks || c.level == .paranoid

end Config

end Overrun
