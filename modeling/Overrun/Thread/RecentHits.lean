import Overrun.Address.IntervalMap

/-! The entries of an interval map that were found most recently, in front of the map itself. An entry
moves one place forward each time it is found again. The hits are only good for as long as the map
stays as it is. -/

namespace Overrun

structure RecentHits (α : Type) where
  entries : List (Entry α)
  capacity : Nat
  deriving DecidableEq

namespace RecentHits

variable {α : Type}

def empty (capacity : Nat) : RecentHits α :=
  ⟨[], capacity⟩

/-- The first element that passes, exchanged with the one before it. -/
def promote {β : Type} (p : β → Bool) : List β → Option (β × List β)
  | [] => none
  | [x] => if p x then some (x, [x]) else none
  | x :: y :: rest =>
    if p x then some (x, x :: y :: rest)
    else if p y then some (y, y :: x :: rest)
    else (promote p (y :: rest)).map fun (hit, tail) => (hit, x :: tail)

def lookup (h : RecentHits α) (a : UInt64) : Option (Entry α × RecentHits α) :=
  (promote (fun e => a ∈ e.interval) h.entries).map fun (hit, entries) =>
    (hit, { h with entries := entries })

/-- Takes a hit into the middle, at the cost of the last one when there is no room. -/
def insert (h : RecentHits α) (hit : Entry α) : RecentHits α :=
  if h.capacity = 0 then h
  else
    let kept := if h.entries.length = h.capacity then h.entries.dropLast else h.entries
    { h with entries := kept.take (kept.length / 2) ++ hit :: kept.drop (kept.length / 2) }

def clear (h : RecentHits α) : RecentHits α :=
  { h with entries := [] }

end RecentHits

end Overrun
