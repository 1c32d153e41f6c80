import Overrun.Learned.Invariant

/-! The instructions an activation has run, with what each has learned, found by address. A site goes
into the first free slot from its home on, and the slots double before more than half are taken. -/

namespace Overrun

/-- An instruction with the block vector of its frame and what it has learned. -/
structure Site where
  address : UInt64
  vector : VectorRef
  invariant : Invariant
  deriving DecidableEq, Repr

structure SiteTable where
  slots : Array (Option Site)
  used : Nat
  deriving DecidableEq, Repr

/-- Where a search for an instruction ends. -/
inductive Probe where
  | found (slot : Nat) (site : Site)
  | free (slot : Nat)
  | full
  deriving DecidableEq, Repr

namespace SiteTable

def initialSlots : Nat := 4

def empty : SiteTable :=
  ⟨Array.replicate initialSlots none, 0⟩

instance : EmptyCollection SiteTable := ⟨empty⟩

instance : Inhabited SiteTable := ⟨empty⟩

def capacity (t : SiteTable) : Nat :=
  t.slots.size

def isEmpty (t : SiteTable) : Bool :=
  t.used == 0

def sites (t : SiteTable) : List Site :=
  t.slots.toList.filterMap id

/-- Looks at `steps` slots from `slot` on, going round at the end. -/
def probeFrom (slots : Array (Option Site)) (address : UInt64) (slot : Nat) : Nat → Probe
  | 0 => .full
  | steps + 1 =>
    match slots[slot]?.join with
    | none => .free slot
    | some site =>
      if site.address = address then .found slot site
      else probeFrom slots address ((slot + 1) % slots.size) steps

def home (slots : Array (Option Site)) (address : UInt64) : Nat :=
  address.toNat % slots.size

def probeSlots (slots : Array (Option Site)) (address : UInt64) : Probe :=
  probeFrom slots address (home slots address) slots.size

def probe (t : SiteTable) (address : UInt64) : Probe :=
  probeSlots t.slots address

def find? (t : SiteTable) (address : UInt64) : Option Site :=
  match t.probe address with
  | .found _ site => some site
  | .free _ | .full => none

/-- Puts sites one after another into slots that hold none of them. -/
def refill (used : Nat) (slots : Array (Option Site)) :
    List Site → Except Fault (Array (Option Site))
  | [] => .ok slots
  | site :: rest =>
    match probeSlots slots site.address with
    | .found .. => .error (.storedTwice site.address)
    | .full => .error (.tableFull used slots.size)
    | .free slot => refill used (slots.setIfInBounds slot (some site)) rest

/-- The same sites among twice as many slots. -/
def grow (t : SiteTable) : Except Fault SiteTable := do
  let slots ← refill t.used (Array.replicate (2 * t.slots.size) none) t.sites
  return { t with slots := slots }

/-- The table itself while half of it is free, and twice the slots after that. -/
def makeRoom (t : SiteTable) : Except Fault SiteTable :=
  if t.slots.size < 2 * t.used then t.grow else .ok t

structure Located where
  table : SiteTable
  slot : Nat
  site : Site
  deriving DecidableEq, Repr

def create (t : SiteTable) (address : UInt64) (vector : VectorRef) : Except Fault Located := do
  let t ← t.makeRoom
  match t.probe address with
  | .found .. => throw (.appearedWhileGrowing address)
  | .full => throw (.tableFull t.used t.slots.size)
  | .free slot =>
    let site : Site := ⟨address, vector, .unset⟩
    return ⟨⟨t.slots.setIfInBounds slot (some site), t.used + 1⟩, slot, site⟩

/-- The site of an instruction, which has learned nothing when it is first met. An instruction always
comes with the same vector. -/
def findOrCreate (t : SiteTable) (address : UInt64) (vector : VectorRef) :
    Except Fault Located :=
  if address = 0 then .error .zeroInstruction
  else match t.probe address with
    | .full => .error (.tableFull t.used t.slots.size)
    | .free _ => t.create address vector
    | .found slot site =>
      if site.vector = vector then .ok ⟨t, slot, site⟩
      else .error (.vectorsDiffer address site.vector vector)

def mapSites (f : Site → Site) (t : SiteTable) : SiteTable :=
  { t with slots := t.slots.map (Option.map f) }

end SiteTable

def Site.withInvariant (invariant : Invariant) (site : Site) : Site :=
  { site with invariant := invariant }

def SiteTable.Located.learn (l : SiteTable.Located) (invariant : Invariant) : SiteTable :=
  { l.table with slots := l.table.slots.modify l.slot (Option.map (Site.withInvariant invariant)) }

def SiteTable.forget (doomed : Invariant → Bool) (t : SiteTable) : SiteTable :=
  t.mapSites fun site =>
    if doomed site.invariant then site.withInvariant .unknown else site

def SiteTable.invariants (t : SiteTable) : List Invariant :=
  t.sites.map (·.invariant)

end Overrun
