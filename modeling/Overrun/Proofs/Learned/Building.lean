import Overrun.Proofs.Learned.InPlace

/-! Tables as they come about, by instructions that are taken in and invariants that are written down.
They are in order, and nothing can be done wrong with them but to ask for the instruction at zero or to
give an instruction another vector. -/

namespace Overrun.SiteTable

inductive Built : SiteTable → Prop where
  | empty : Built ∅
  | findOrCreate {t : SiteTable} {address : UInt64} {vector : VectorRef} {l : Located}
      (built : Built t) (done : t.findOrCreate address vector = .ok l) : Built l.table
  | write {t : SiteTable} (built : Built t) (slot : Nat) (invariant : Invariant) :
      Built (t.write slot invariant)

theorem Built.filled {t : SiteTable} (built : t.Built) : t.Filled := by
  induction built with
  | empty => exact filled_empty
  | findOrCreate _ done filled => exact filled.findOrCreate done
  | write _ slot invariant filled => exact filled.write slot invariant

/-- A time that an instruction is looked up, with what is then written down for it. -/
structure Visit where
  address : UInt64
  vector : VectorRef
  learns : List Invariant
  deriving DecidableEq, Repr

def visit (t : SiteTable) (visited : Visit) : Except Fault SiteTable := do
  let l ← t.findOrCreate visited.address visited.vector
  return visited.learns.foldl (·.write l.slot ·) l.table

def visitAll (t : SiteTable) (visits : List Visit) : Except Fault SiteTable :=
  visits.foldlM visit t

theorem visitAll_cons (t : SiteTable) (visited : Visit) (rest : List Visit) :
    t.visitAll (visited :: rest) = (t.visit visited >>= fun next => next.visitAll rest) :=
  List.foldlM_cons

theorem Built.writes {t : SiteTable} (built : t.Built) (slot : Nat) (invariants : List Invariant) :
    (invariants.foldl (·.write slot ·) t).Built := by
  induction invariants generalizing t with
  | nil => exact built
  | cons invariant rest ih => exact ih (built.write slot invariant)

theorem Built.visit {t after : SiteTable} {visited : Visit} (built : t.Built)
    (done : t.visit visited = .ok after) : after.Built := by
  unfold SiteTable.visit at done
  obtain ⟨l, located, done⟩ := bind_eq_ok.1 done
  cases done
  exact (built.findOrCreate located).writes l.slot visited.learns

theorem Built.visitAll {t after : SiteTable} {visits : List Visit} (built : t.Built)
    (done : t.visitAll visits = .ok after) : after.Built := by
  induction visits generalizing t with
  | nil =>
    cases done
    exact built
  | cons visited rest ih =>
    rw [visitAll_cons] at done
    obtain ⟨between, first, done⟩ := bind_eq_ok.1 done
    exact ih (built.visit first) done

/-- Whether a table is in order: every search of it ends, and what it refuses is misuse. -/
structure InOrder (t : SiteTable) : Prop where
  capacity_least :
    IsLeast {slots | (∃ doublings, slots = 4 * 2 ^ doublings) ∧ t.used ≤ slots / 2 + 1} t.capacity
  mod_capacity : ∀ n, n % t.capacity = n &&& (t.capacity - 1)
  used_eq : t.used = t.slots.toList.countP Option.isSome
  exists_free : ∃ slot : Nat, t.slots[slot]? = some none
  once : ∀ (first second : Nat) (site other : Site), t.slots[first]? = some (some site) →
    t.slots[second]? = some (some other) → site.address = other.address → first = second
  ne_zero : ∀ (slot : Nat) (site : Site), t.slots[slot]? = some (some site) → site.address ≠ 0
  /-- All slots from the one that an address asks for to the one that its site has are taken. -/
  path : ∀ (slot : Nat) (site : Site), t.slots[slot]? = some (some site) →
    ∃ steps < t.capacity, (site.address.toNat + steps) % t.capacity = slot ∧
      ∀ earlier ≤ steps, ∃ met : Site,
        t.slots[(site.address.toNat + earlier) % t.capacity]? = some (some met)
  probe_ends : ∀ address, t.probe address ≠ .full ∧
    Ends t.slots address (address.toNat % t.capacity) t.capacity (t.probe address)
  in_place : ∀ address vector, (Edit.findOrCreate address vector).outcome t =
    (t.findOrCreate address vector).map fun l => ((l.slot, l.site), l.table)
  fault_iff : ∀ address vector,
    (∃ fault left, Edit.findOrCreate address vector t = .error fault left) ↔
      address = 0 ∨ ∃ site ∈ t.sites, site.address = address ∧ site.vector ≠ vector
  fault_leaves : ∀ address vector fault left,
    Edit.findOrCreate address vector t = .error fault left →
      t.Misuses address vector fault ∧ left = t

theorem held_iff {slots : Array (Option Site)} {slot : Nat} {site : Site} :
    slots[slot]? = some (some site) ↔ slots[slot]?.join = some site :=
  Option.join_eq_some_iff.symm

theorem Filled.used_eq_countP {t : SiteTable} (filled : t.Filled) :
    t.used = t.slots.toList.countP Option.isSome := by
  rw [filled.used_eq]
  exact List.length_filterMap_eq_countP

theorem Built.inOrder {t : SiteTable} (built : t.Built) : t.InOrder where
  capacity_least := built.filled.capacity_least
  mod_capacity := mod_of_roomy built.filled.capacity_least.1
  used_eq := built.filled.used_eq_countP
  exists_free := by
    obtain ⟨slot, inside, free⟩ := built.filled.exists_free
    refine ⟨slot, ?_⟩
    rw [Array.getElem?_eq_getElem inside] at free ⊢
    rw [Option.join_some] at free
    rw [free]
  once first second site other held again same :=
    built.filled.wellFormed.once (held_iff.1 held) (held_iff.1 again) same
  ne_zero slot site held := (built.filled.wellFormed slot site (held_iff.1 held)).1
  path slot site held := built.filled.wellFormed.path (held_iff.1 held)
  probe_ends address := by
    obtain ⟨slot, inside, -⟩ := built.filled.exists_free
    exact ⟨built.filled.probe_ne_full address, probeSlots_ends (Nat.zero_lt_of_lt inside) address⟩
  in_place address vector := Edit.outcome_findOrCreate address vector t
  fault_iff address vector := by
    rw [← exists_misuses]
    apply exists_congr
    intro fault
    simp only [Edit.findOrCreate_error built.filled, exists_and_left, exists_eq, and_true]
  fault_leaves address vector fault left := (Edit.findOrCreate_error built.filled).1

/-- Four instructions with one home, for the last of which the slots are doubled. -/
def sampleVisits : List Visit := [
  ⟨0x4000, ⟨0⟩, [.unknown]⟩, ⟨0x4004, ⟨0⟩, []⟩, ⟨0x4008, ⟨1⟩, [.unknown, .unset]⟩,
  ⟨0x4010, ⟨0⟩, [.unknown]⟩]

def sampleTable : SiteTable :=
  ((∅ : SiteTable).visitAll sampleVisits).toOption.getD ∅

theorem built_sampleTable : sampleTable.Built :=
  Built.empty.visitAll (eq_ok_getD (by decide +kernel) ∅)

/-- Three of the sites ask for the first slot of eight. -/
theorem Built.inOrder_sample :
    sampleTable.Built ∧ sampleTable.InOrder ∧ sampleTable.capacity = 8 ∧
      sampleTable.sites.map (·.address) = [0x4000, 0x4008, 0x4010, 0x4004] :=
  ⟨built_sampleTable, built_sampleTable.inOrder, by decide +kernel, by decide +kernel⟩

end Overrun.SiteTable
