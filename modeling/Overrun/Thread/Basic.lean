import Overrun.Thread.Id
import Overrun.Thread.RecentHits
import Overrun.Thread.ShadowStack

/-! A guest thread: its shadow stack, the blocks its callers have registered and the recent hits among
those. -/

namespace Overrun

/-- What stands at a registered interval. -/
structure Registration where
  block : BlockRef
  /-- Depth of the activation that registered the block. It is less than `2 ^ 32`, as all depths are. -/
  depth : Nat
  deriving DecidableEq, Repr

structure Thread where
  stack : ShadowStack
  registered : IntervalMap Registration
  hits : RecentHits Registration
  deriving DecidableEq

namespace Thread

def initial (hitCapacity : Nat) : Thread :=
  ⟨.initial, ∅, .empty hitCapacity⟩

def depth (t : Thread) : Nat :=
  t.stack.depth

def sites (t : Thread) : List Site :=
  t.stack.frames.flatMap (·.sites.sites)

def withTopSites (t : Thread) (sites : SiteTable) : Thread :=
  { t with stack := { t.stack with top := { t.stack.top with sites := sites } } }

def forget (doomed : Invariant → Bool) (t : Thread) : Thread :=
  { t with stack := t.stack.map fun a => { a with sites := a.sites.forget doomed } }

end Thread

end Overrun
