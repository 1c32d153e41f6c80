import Overrun.Consistency.Violation
import Overrun.Thread.Basic

/-! A search for contradictions in the state of a checker. Nothing is taken on trust from the
operations that built the state. -/

namespace Overrun

/-- Overlaps between neighbours, as `violation` reports them. -/
def neighbourOverlaps (violation : Interval → Interval → Violation) :
    List Interval → List Violation
  | a :: b :: rest =>
    let later := neighbourOverlaps violation (b :: rest)
    if a.Overlaps b then violation a b :: later else later
  | [_] | [] => []

def auditGlobals (globals : IntervalMap GlobalRef) : List Violation :=
  neighbourOverlaps .globalOverlap (globals.entries.map (·.interval))

namespace Thread

/-- Each address that an activation lists, with the depth of that activation. -/
def listings (t : Thread) : List (UInt64 × Nat) :=
  t.stack.frames.zipIdx.flatMap fun (a, depth) => a.registered.map (·, depth)

def listedAt (t : Thread) (address : UInt64) : List Nat :=
  (t.listings.filter (·.1 == address)).map (·.2)

def auditBottom (t : Thread) (tid : ThreadId) : List Violation :=
  match t.stack.get? 0 with
  | some bottom => if bottom.isSentinel then [] else [.noSentinel tid]
  | none => [.noSentinel tid]

def startsAt (t : Thread) (address : UInt64) : Bool :=
  (t.registered.covering? address).any (·.interval.first == address)

/-- Whether the site in `slot` is what a search for its instruction ends at. -/
def reachable (table : SiteTable) (slot : Nat) (site : Site) : Bool :=
  site.address != 0 && match table.probe site.address with
    | .found position _ => position == slot
    | .free _ | .full => false

def unreachableSites (table : SiteTable) : List Site :=
  table.slots.toList.zipIdx.filterMap fun (held, slot) =>
    held.bind fun site => if reachable table slot site then none else some site

def auditActivation (t : Thread) (tid : ThreadId) (depth : Nat) (a : Activation) :
    List Violation :=
  ((a.registered.filter fun address => !t.startsAt address).map (.listedMissing tid depth ·))
    ++ (unreachableSites a.sites).map (.unreachable tid depth ·.address)

/-- A registered interval is listed once, by the activation at its depth. -/
def auditListing (t : Thread) (tid : ThreadId) (e : Entry Registration) : List Violation :=
  match t.listedAt e.interval.first with
  | [depth] =>
    if depth = e.value.depth then [] else [.wrongDepth tid e.interval e.value.depth depth]
  | depths => [.listing tid e.interval depths.length]

/-- Each entry is compared with the one before it and then with the listings. -/
def auditEntries (t : Thread) (tid : ThreadId) :
    Option Interval → List (Entry Registration) → List Violation
  | _, [] => []
  | previous, e :: rest =>
    (previous.filter (·.Overlaps e.interval)).toList.map (.stackOverlap tid · e.interval)
      ++ t.auditListing tid e
      ++ t.auditEntries tid (some e.interval) rest

def audit (t : Thread) (tid : ThreadId) : List Violation :=
  t.auditBottom tid
    ++ t.stack.frames.zipIdx.flatMap (fun (a, depth) => t.auditActivation tid depth a)
    ++ t.auditEntries tid none t.registered.entries

/-- Every global invariant names an entry that is still there. -/
def auditInvariants (t : Thread) (tid : ThreadId) (globals : IntervalMap GlobalRef) :
    List Violation :=
  t.sites.filterMap fun site =>
    site.invariant.globalNode?.bind fun node =>
      if globals.hasNode node then none else some (.staleGlobal tid site.address node)

end Thread

end Overrun
