import Overrun.Thread.Basic

/-! Which block an access falls in: one of its own frame, else one a caller has registered, else a
global. A block counts only if it holds the whole access. -/

namespace Overrun

structure Access where
  span : Span
  sp : UInt64
  fp : UInt64
  deriving DecidableEq, Repr

/-- How far the search among registered blocks had to go. -/
inductive Lookup where
  | unneeded
  | hit
  | miss
  deriving DecidableEq, Repr

def Lookup.queries : Lookup → Nat
  | unneeded => 0
  | hit | miss => 1

def Lookup.misses : Lookup → Nat
  | unneeded | hit => 0
  | miss => 1

/-- The first block of a vector that holds the access, where `index` is the position of the first of
`blocks`. -/
def ownFrame? (vector : VectorRef) (access : Access) (index : Nat) :
    List StackBlock → Option Invariant
  | [] => none
  | block :: rest =>
    let span := block.span access.sp access.fp
    if span.contains access.span then some (.ownFrame span ⟨vector, index⟩)
    else ownFrame? vector access (index + 1) rest

def global? (globals : IntervalMap GlobalRef) (access : Access) : Option Invariant :=
  (globals.covering? access.span.start).bind fun e =>
    if e.interval.contains access.span then some (.global e.id e.interval.span e.value) else none

namespace Thread

/-- The registered block at `a`, asked of the recent hits before the map. -/
def registeredAt (t : Thread) (a : UInt64) : Option (Entry Registration) × Lookup × Thread :=
  match t.hits.lookup a with
  | some (hit, hits) => (some hit, .hit, { t with hits := hits })
  | none =>
    match t.registered.covering? a with
    | some found => (some found, .miss, { t with hits := t.hits.insert found })
    | none => (none, .miss, t)

/-- What the registered block at the start of the access says of it, if it holds all of it. -/
def callerFrame? (found : Option (Entry Registration)) (access : Access) : Option Invariant :=
  found.bind fun e =>
    if e.interval.contains access.span then
      some (.callerFrame e.id e.interval.span e.value.block e.value.depth)
    else none

structure Classified where
  invariant : Invariant
  lookup : Lookup
  thread : Thread
  deriving DecidableEq

def classify (t : Thread) (globals : IntervalMap GlobalRef) (vector : VectorRef)
    (blocks : List StackBlock) (access : Access) : Classified :=
  match ownFrame? vector access 0 blocks with
  | some own => ⟨own, .unneeded, t⟩
  | none =>
    let (found, lookup, t) := t.registeredAt access.span.start
    let invariant := (callerFrame? found access).or (global? globals access) |>.getD .unknown
    ⟨invariant, lookup, t⟩

end Thread

end Overrun
