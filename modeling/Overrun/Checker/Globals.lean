import Overrun.Checker.Basic

/-! Objects are loaded and regions unmapped, and with them the global blocks. -/

namespace Overrun.Checker

/-- A checker that has taken in some global blocks, and how many of them it registered. -/
structure Loaded where
  checker : Checker
  added : Nat
  events : List Event

/-- Registers the blocks in order. A block that is empty or does not fit in the address space is left
out unseen; one that overlaps a registered block is left out with a warning, the first few times. -/
def registerGlobals (c : Checker) : List GlobalBlock → Loaded
  | [] => ⟨c, 0, []⟩
  | block :: rest =>
    match Interval.ofSize? block.address block.size with
    | none => c.registerGlobals rest
    | some interval =>
      let (g, catalog) := c.catalog.internGlobal block
      let c := { c with catalog := catalog }
      match c.globals.insert interval g with
      | .ok (_, globals) =>
        let r := registerGlobals { c with globals := globals } rest
        { r with added := r.added + 1 }
      | .error overlap =>
        if c.overlapWarnings = 0 then c.registerGlobals rest
        else
          let r := registerGlobals { c with overlapWarnings := c.overlapWarnings - 1 } rest
          { r with events := .globalOverlaps block.name overlap :: r.events }

def loadGlobals (env : Environment) (c : Checker) (handle : UInt64) :
    Except Fault (Outcome Unit) := do
  let r := c.registerGlobals (env.globalBlocksOf handle c.config.arraysOnly)
  let c := r.checker
  let c := { c with statistics := { c.statistics with
    globalsAdded := c.statistics.globalsAdded + r.added } }
  c.selfCheck
  return ⟨(), c, r.events ++ [.globalsLoaded handle r.added]⟩

/-- Global invariants that unmapping `range` makes void: their entry is gone, or they reach into it. -/
def voidedBy (removed : List NodeId) (range : Interval) : Invariant → Bool
  | .global node span _ =>
    removed.contains node
      || (Interval.ofSize? span.start span.size).any fun iv => iv.Overlaps range
  | _ => false

def invariants (c : Checker) : List Invariant :=
  c.liveThreads.flatMap fun (_, t) => t.sites.map (·.invariant)

/-- Drops the global blocks that reach into `region` and forgets what was learned of them. -/
def unmap (c : Checker) (region : Span) : Except Fault (Outcome Unit) :=
  match Interval.clamped? region.start region.size with
  | none => .ok ⟨(), c, []⟩
  | some range =>
    let (removed, globals) := c.globals.takeRange range
    if removed.isEmpty then .ok ⟨(), c, []⟩
    else do
      let void := voidedBy (removed.map (·.id)) range
      let preened := c.invariants.countP fun inv => inv.globalNode?.isSome
      let changed := c.invariants.countP void
      let c := { c with
        globals := globals
        threads := c.threads.map (Option.map (Thread.forget void))
        statistics := { c.statistics with
          globalsRemoved := c.statistics.globalsRemoved + removed.length
          preened := c.statistics.preened + preened
          changed := c.statistics.changed + changed } }
      c.selfCheck
      return ⟨(), c, [.regionUnmapped region removed.length preened changed]⟩

end Overrun.Checker
