import Overrun.Checker.Basic

/-! Accesses are classified and compared with what their instruction learned in the activation that
runs it. -/

namespace Overrun

/-- What the code before a memory reference passes on. -/
structure AccessHook where
  address : UInt64
  sp : UInt64
  fp : UInt64
  /-- Negative for a write. -/
  signedSize : Int64
  instruction : UInt64
  vector : VectorRef
  deriving DecidableEq, Repr

/-- The bytes that are touched, and the pointers to find the blocks of the frame by. -/
def AccessHook.access (hook : AccessHook) : Access :=
  ⟨⟨hook.address, (AccessKind.ofSigned hook.signedSize).2⟩, hook.sp, hook.fp⟩

namespace Checker

/-- Finds the block that an access falls in. Only the recent hits and two counters change. -/
def classify (c : Checker) (tid : ThreadId) (access : Access) (vector : VectorRef) :
    Except Fault (Outcome Invariant) := do
  let t ← c.thread tid
  let blocks ← c.catalog.vector vector
  let r := t.classify c.globals vector blocks access
  let statistics := { c.statistics with
    queries := c.statistics.queries + r.lookup.queries
    misses := c.statistics.misses + r.lookup.misses }
  return ⟨r.invariant, { c.setThread tid r.thread with statistics := statistics }, []⟩

/-- What is reported of an access that does not fit what was learned. -/
def diagnose (env : Environment) (c : Checker) (tid : ThreadId) (depth : Nat) (hook : AccessHook)
    (learned fresh : Invariant) : Except Fault Diagnostic := do
  let (kind, size) := AccessKind.ofSigned hook.signedSize
  let expected ← learned.text c.catalog depth
  let actual ← fresh.text c.catalog depth
  let plain : Diagnostic :=
    ⟨tid, kind, size, hook.address, hook.instruction, expected, actual, [], env.callStackOf tid⟩
  return plain.withRelation learned.span?

/-- Reports a mismatch; the other verdicts pass in silence. -/
def reportVerdict (env : Environment) (c : Checker) (tid : ThreadId) (depth : Nat)
    (hook : AccessHook) (learned fresh : Invariant) : Except Fault (Outcome Unit) :=
  match learned.judge fresh with
  | .learned | .confirmed | .upgraded => .ok ⟨(), c, []⟩
  | .mismatched => do
    let d ← c.diagnose env tid depth hook learned fresh
    let report := c.report.push c.config.maxDiagnostics d
    return ⟨(), { c with report := report }, [.mismatched tid d.summary]⟩

/-- Classifies an access, compares it with what its instruction has learned in this activation, and
reports it if it does not fit. -/
def access (env : Environment) (c : Checker) (tid : ThreadId) (hook : AccessHook) :
    Except Fault (Outcome Unit) := do
  let classified ← c.classify tid hook.access hook.vector
  let fresh := classified.value
  let c := classified.checker
  let t ← c.thread tid
  let located ← t.stack.top.sites.findOrCreate hook.instruction hook.vector
  let learned := located.site.invariant
  let sites := located.learn (learned.revised fresh)
  let counted := { c.statistics with accesses := c.statistics.accesses + 1 }
  let statistics := (counted.countKind fresh.kind).countVerdict (learned.judge fresh)
  let c := { c.setThread tid (t.withTopSites sites) with statistics := statistics }
  c.reportVerdict env tid t.depth hook learned fresh

/-- What an instruction has learned in the activation that `tid` is in. -/
def learned? (c : Checker) (tid : ThreadId) (instruction : UInt64) : Option Invariant :=
  (c.thread? tid).bind fun t =>
    (t.stack.top.sites.find? instruction).map (·.invariant)

def takeDiagnostics (c : Checker) : Outcome (List Diagnostic) :=
  let (taken, report) := c.report.take
  ⟨taken, { c with report := report }, []⟩

def summarize (c : Checker) : Outcome Statistics :=
  let errors := if c.report.isEmpty then [] else [.errorsDetected c.report.total]
  ⟨c.statistics, c, .summarized c.statistics :: errors⟩

end Checker

end Overrun
