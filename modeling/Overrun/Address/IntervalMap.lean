import Overrun.Address.Interval

/-! Values kept at disjoint intervals, in order of address. Each entry has a number that is given
out once and never again, so it still tells entries apart after they are gone. -/

namespace Overrun

/-- Fewer than `2 ^ 64` intervals are ever taken in, so the numbers have no bound here. -/
structure NodeId where
  index : Nat
  deriving DecidableEq, Repr

def NodeId.text (id : NodeId) : String :=
  s!"node{id.index}"

instance : ToString NodeId := ⟨NodeId.text⟩

/-- An interval that cannot be taken because `existing`, and maybe others, hold part of it. -/
structure Overlap where
  new : Interval
  existing : Interval
  deriving DecidableEq

def Overlap.message (o : Overlap) : String :=
  s!"interval {o.new} overlaps registered interval {o.existing}"

instance : ToString Overlap := ⟨Overlap.message⟩

structure Entry (α : Type) where
  interval : Interval
  id : NodeId
  value : α
  deriving DecidableEq

structure IntervalMap (α : Type) where
  entries : List (Entry α)
  nextId : NodeId
  deriving DecidableEq

namespace IntervalMap

variable {α : Type}

def empty : IntervalMap α :=
  ⟨[], ⟨0⟩⟩

instance : EmptyCollection (IntervalMap α) := ⟨empty⟩

instance : Inhabited (IntervalMap α) := ⟨empty⟩

def size (m : IntervalMap α) : Nat :=
  m.entries.length

def isEmpty (m : IntervalMap α) : Bool :=
  m.entries.isEmpty

/-- An entry that overlaps `iv`. Which one it is of several is not promised. -/
def overlapping? (m : IntervalMap α) (iv : Interval) : Option (Entry α) :=
  m.entries.find? fun e => e.interval.Overlaps iv

/-- Puts an entry before the first one that does not lie wholly below it. -/
def place (entry : Entry α) : List (Entry α) → List (Entry α)
  | [] => [entry]
  | e :: rest =>
    if e.interval.last < entry.interval.first then e :: place entry rest else entry :: e :: rest

def insert (m : IntervalMap α) (iv : Interval) (value : α) :
    Except Overlap (NodeId × IntervalMap α) :=
  match m.overlapping? iv with
  | some e => .error ⟨iv, e.interval⟩
  | none => .ok (m.nextId, ⟨place ⟨iv, m.nextId, value⟩ m.entries, ⟨m.nextId.index + 1⟩⟩)

/-- The entry whose interval holds `a`. -/
def covering? (m : IntervalMap α) (a : UInt64) : Option (Entry α) :=
  m.entries.find? fun e => a ∈ e.interval

def takeAt? (m : IntervalMap α) (a : UInt64) : Option (Entry α × IntervalMap α) :=
  (m.covering? a).map fun e => (e, { m with entries := m.entries.eraseP fun e => a ∈ e.interval })

def takeRange (m : IntervalMap α) (range : Interval) : List (Entry α) × IntervalMap α :=
  (m.entries.filter fun e => e.interval.Overlaps range,
    { m with entries := m.entries.filter fun e => ¬ e.interval.Overlaps range })

def hasNode (m : IntervalMap α) (id : NodeId) : Bool :=
  m.entries.any fun e => e.id == id

end IntervalMap

end Overrun
