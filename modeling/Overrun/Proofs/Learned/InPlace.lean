import Overrun.Proofs.Learned.Capacity

/-! Tables changed in place, where a fault leaves behind what was done until then. Each operation
comes to the same as the one that gives a new table, and those faults that a table may really end in
come before anything is changed. -/

namespace Overrun.SiteTable

/-- Work done on a table in place. -/
abbrev Edit := EStateM Fault SiteTable

namespace Edit

def refill : List Site → Edit Unit
  | [] => return
  | site :: rest => do
    let t ← get
    match t.probe site.address with
    | .found .. => throw (.storedTwice site.address)
    | .full => throw (.tableFull t.used t.slots.size)
    | .free slot =>
      set { t with slots := t.slots.setIfInBounds slot (some site) }
      refill rest

/-- Takes the sites out of the slots, and puts them back one after another into twice as many. -/
def grow : Edit Unit := do
  let t ← get
  set { t with slots := Array.replicate (2 * t.slots.size) none }
  refill t.sites

def makeRoom : Edit Unit := do
  let t ← get
  if t.slots.size < 2 * t.used then grow

def create (address : UInt64) (vector : VectorRef) : Edit Nat := do
  makeRoom
  let t ← get
  match t.probe address with
  | .found .. => throw (.appearedWhileGrowing address)
  | .full => throw (.tableFull t.used t.slots.size)
  | .free slot =>
    set (⟨t.slots.setIfInBounds slot (some ⟨address, vector, .unset⟩), t.used + 1⟩ : SiteTable)
    return slot

def slotOf (address : UInt64) (vector : VectorRef) : Edit Nat := do
  let t ← get
  match t.probe address with
  | .full => throw (.tableFull t.used t.slots.size)
  | .free _ => create address vector
  | .found slot _ => return slot

def siteAt (slot : Nat) (address : UInt64) (vector : VectorRef) : Edit (Nat × Site) := do
  let t ← get
  match t.slots[slot]?.join with
  | none => throw .emptySlot
  | some site =>
    if site.vector = vector then return (slot, site)
    else throw (.vectorsDiffer address site.vector vector)

/-- The slot of an instruction, which is read once more when the instruction has one. -/
def findOrCreate (address : UInt64) (vector : VectorRef) : Edit (Nat × Site) :=
  if address = 0 then throw .zeroInstruction
  else do siteAt (← slotOf address vector) address vector

variable {α β : Type}

def outcome (edit : Edit α) (t : SiteTable) : Except Fault (α × SiteTable) :=
  match edit t with
  | .ok answer after => .ok (answer, after)
  | .error fault _ => .error fault

theorem outcome_bind (first : Edit α) (next : α → Edit β) (t : SiteTable) :
    outcome (first >>= next) t =
      (outcome first t >>= fun done => outcome (next done.1) done.2) := by
  unfold outcome
  simp only [bind, EStateM.bind, Except.bind]
  cases first t <;> rfl

theorem get_bind (next : SiteTable → Edit α) (t : SiteTable) : (get >>= next) t = next t t :=
  rfl

theorem bind_ok {first : Edit α} {next : α → Edit β} {t after : SiteTable} {answer : α}
    (done : first t = .ok answer after) : (first >>= next) t = next answer after := by
  simp only [bind, EStateM.bind, done]

theorem outcome_get (next : SiteTable → Edit α) (t : SiteTable) :
    outcome (get >>= next) t = outcome (next t) t :=
  rfl

theorem outcome_set (after : SiteTable) (next : Edit α) (t : SiteTable) :
    outcome (do set after; next) t = outcome next after :=
  rfl

theorem outcome_refill (sites : List Site) (t : SiteTable) :
    outcome (refill sites) t =
      (SiteTable.refill t.used t.slots sites).map fun slots => ((), { t with slots := slots }) := by
  induction sites generalizing t with
  | nil => rfl
  | cons site rest ih =>
    unfold refill SiteTable.refill
    rw [outcome_get]
    unfold probe
    cases probeSlots t.slots site.address with
    | free slot => exact ih _
    | found slot met => rfl
    | full => rfl

theorem outcome_grow (t : SiteTable) :
    outcome grow t = t.grow.map fun after => ((), after) := by
  unfold grow SiteTable.grow
  rw [outcome_get, outcome_set, outcome_refill]
  cases SiteTable.refill t.used (Array.replicate (2 * t.slots.size) none) t.sites <;> rfl

theorem outcome_makeRoom (t : SiteTable) :
    outcome makeRoom t = t.makeRoom.map fun after => ((), after) := by
  unfold makeRoom SiteTable.makeRoom
  rw [outcome_get]
  split
  · exact outcome_grow t
  · rfl

theorem outcome_create (address : UInt64) (vector : VectorRef) (t : SiteTable) :
    outcome (create address vector) t =
      (t.create address vector).map fun l => (l.slot, l.table) := by
  unfold create SiteTable.create
  rw [outcome_bind, outcome_makeRoom, map_bind]
  apply bind_eq_map_bind
  intro room made
  dsimp only
  rw [outcome_get]
  cases room.probe address <;> rfl

theorem create_held {t : SiteTable} {address : UInt64} {vector : VectorRef} {l : Located}
    (done : t.create address vector = .ok l) :
    l.table.slots[l.slot]?.join = some l.site ∧ l.site.vector = vector := by
  unfold SiteTable.create at done
  obtain ⟨room, -, done⟩ := bind_eq_ok.1 done
  split at done
  · contradiction
  · contradiction
  · next slot found =>
    cases done
    rw [join_setIfInBounds (probeSlots_free found).1, if_pos rfl]
    exact ⟨rfl, rfl⟩

theorem siteAt_eq {t : SiteTable} {slot : Nat} {site : Site}
    (held : t.slots[slot]?.join = some site) (address : UInt64) (vector : VectorRef) :
    siteAt slot address vector t =
      if site.vector = vector then .ok (slot, site) t
      else .error (.vectorsDiffer address site.vector vector) t := by
  unfold siteAt
  rw [get_bind, held]
  dsimp only
  split <;> rfl

theorem outcome_siteAt {t : SiteTable} {slot : Nat} {site : Site}
    (held : t.slots[slot]?.join = some site) (address : UInt64) (vector : VectorRef) :
    outcome (siteAt slot address vector) t =
      if site.vector = vector then .ok ((slot, site), t)
      else .error (.vectorsDiffer address site.vector vector) := by
  unfold outcome
  rw [siteAt_eq held]
  by_cases same : site.vector = vector
  · rw [if_pos same, if_pos same]
  · rw [if_neg same, if_neg same]

/-- A site that was found or just taken in is still in its slot when that is read once more. -/
theorem outcome_findOrCreate (address : UInt64) (vector : VectorRef) (t : SiteTable) :
    outcome (findOrCreate address vector) t =
      (t.findOrCreate address vector).map fun l => ((l.slot, l.site), l.table) := by
  unfold findOrCreate SiteTable.findOrCreate
  by_cases zero : address = 0
  · rw [if_pos zero, if_pos zero]
    rfl
  · rw [if_neg zero, if_neg zero, outcome_bind]
    unfold slotOf
    rw [outcome_get]
    cases probed : t.probe address with
    | full => rfl
    | free slot =>
      dsimp only
      rw [outcome_create, map_bind]
      cases created : t.create address vector with
      | error fault => rfl
      | ok l =>
        obtain ⟨held, same⟩ := create_held created
        exact (outcome_siteAt held address vector).trans (if_pos same)
    | found slot site =>
      have held := (probeFrom_found probed).1
      refine (outcome_siteAt held address vector).trans ?_
      dsimp only
      split <;> rfl

theorem outcome_error {edit : Edit α} {t left : SiteTable} {fault : Fault}
    (faulted : edit t = .error fault left) : outcome edit t = .error fault := by
  unfold outcome
  rw [faulted]

theorem findOrCreate_misuse {t : SiteTable} {address : UInt64} {vector : VectorRef} {fault : Fault}
    (wf : t.WellFormed) (misused : t.Misuses address vector fault) :
    findOrCreate address vector t = .error fault t := by
  unfold findOrCreate
  cases misused with
  | zero => rfl
  | @differs site _ member other =>
    obtain ⟨slot, held⟩ := mem_sites.1 member
    have probed : t.probe site.address = .found slot site := (wf slot site held).2
    have found : slotOf site.address vector t = .ok slot t := by
      unfold slotOf
      rw [get_bind, probed]
      rfl
    rw [if_neg (wf.ne_zero member), bind_ok found, siteAt_eq held, if_neg other]

theorem findOrCreate_error {t left : SiteTable} {address : UInt64} {vector : VectorRef}
    {fault : Fault} (filled : t.Filled) :
    findOrCreate address vector t = .error fault left ↔
      t.Misuses address vector fault ∧ left = t := by
  constructor
  · intro faulted
    have refused := outcome_error faulted
    rw [outcome_findOrCreate, map_eq_error] at refused
    have misused := filled.findOrCreate_error.1 refused
    rw [findOrCreate_misuse filled.wellFormed misused] at faulted
    cases faulted
    exact ⟨misused, rfl⟩
  · rintro ⟨misused, rfl⟩
    exact findOrCreate_misuse filled.wellFormed misused

end Edit

end Overrun.SiteTable
