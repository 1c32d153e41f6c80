import Mathlib.Algebra.Group.Nat.Even
import Mathlib.Order.Bounds.Basic
import Overrun.Proofs.Learned.Paths

/-! How many slots a table has. They are doubled when a site comes while more than half of them are
taken, so their number follows from the number of sites, and one of them is always free. Nothing then
goes wrong when a site is taken in, however often the sites have been moved. -/

namespace Overrun.SiteTable

/-- The numbers of slots that are enough for `used` sites. The last of these may have come when just
half of the slots were taken. -/
def Roomy (used : Nat) : Set Nat :=
  {slots | (∃ doublings, slots = initialSlots * 2 ^ doublings) ∧ used ≤ slots / 2 + 1}

theorem isLeast_roomy_zero : IsLeast (Roomy 0) initialSlots := by
  refine ⟨⟨⟨0, rfl⟩, Nat.zero_le _⟩, ?_⟩
  rintro _ ⟨⟨doublings, rfl⟩, -⟩
  exact Nat.le_mul_of_pos_right _ (Nat.two_pow_pos doublings)

theorem exists_half (doublings : Nat) :
    ∃ half, 2 ≤ half ∧ initialSlots * 2 ^ doublings = 2 * half := by
  have some : 0 < 2 ^ doublings := Nat.two_pow_pos doublings
  exact ⟨2 * 2 ^ doublings, by omega, Nat.mul_assoc 2 2 _⟩

theorem double_le {fewer more : Nat} (lt : initialSlots * 2 ^ fewer < initialSlots * 2 ^ more) :
    2 * (initialSlots * 2 ^ fewer) ≤ initialSlots * 2 ^ more := by
  have exponents : fewer < more :=
    (Nat.pow_lt_pow_iff_right Nat.one_lt_two).1 (Nat.lt_of_mul_lt_mul_left lt)
  calc 2 * (initialSlots * 2 ^ fewer) = initialSlots * 2 ^ (fewer + 1) := by
        rw [Nat.pow_succ]; ac_rfl
    _ ≤ initialSlots * 2 ^ more :=
        Nat.mul_le_mul_left _ (Nat.pow_le_pow_right Nat.two_pos exponents)

theorem isLeast_roomy_succ {used slots : Nat} (least : IsLeast (Roomy used) slots) :
    IsLeast (Roomy (used + 1)) (if slots < 2 * used then 2 * slots else slots) := by
  obtain ⟨⟨⟨doublings, rfl⟩, enough⟩, below⟩ := least
  obtain ⟨half, two, double⟩ := exists_half doublings
  split
  · next crowded =>
    -- One more than half of the slots are taken, no more, so half of twice as many is plenty.
    refine ⟨⟨⟨doublings + 1, by rw [Nat.pow_succ]; ac_rfl⟩, by omega⟩, ?_⟩
    rintro _ ⟨⟨others, rfl⟩, plenty⟩
    exact double_le (by omega)
  · next roomy =>
    refine ⟨⟨⟨doublings, rfl⟩, by omega⟩, ?_⟩
    rintro other ⟨power, plenty⟩
    exact below ⟨power, by omega⟩

theorem lt_of_roomy {used slots : Nat} (enough : slots ∈ Roomy used) : used < slots := by
  obtain ⟨⟨doublings, rfl⟩, enough⟩ := enough
  obtain ⟨half, two, double⟩ := exists_half doublings
  omega

theorem mod_of_roomy {used slots : Nat} (enough : slots ∈ Roomy used) (n : Nat) :
    n % slots = n &&& (slots - 1) := by
  obtain ⟨⟨doublings, rfl⟩, -⟩ := enough
  have power : initialSlots * 2 ^ doublings = 2 ^ (doublings + 2) := by
    rw [Nat.pow_add, Nat.mul_comm]
    rfl
  rw [power, Nat.and_two_pow_sub_one_eq_mod]

section Slots

variable {slots : Array (Option Site)}

theorem exists_free (few : (slots.toList.filterMap id).length < slots.size) :
    ∃ slot < slots.size, slots[slot]?.join = none := by
  have missed : ¬∀ held ∈ slots.toList, Option.isSome held = true := by
    intro taken
    rw [List.length_filterMap_eq_countP] at few
    have all := List.countP_eq_length.2 taken
    rw [Array.length_toList] at all
    exact Nat.ne_of_lt few all
  simp only [not_forall] at missed
  obtain ⟨held, member, free⟩ := missed
  obtain ⟨slot, inside, same⟩ := List.mem_iff_getElem.1 member
  refine ⟨slot, inside, ?_⟩
  rw [← Array.getElem?_toList, List.getElem?_eq_getElem inside, same]
  exact Option.not_isSome_iff_eq_none.1 free

theorem nodup_addresses (reached : Reached slots) :
    ((slots.toList.filterMap id).map Site.address).Nodup := by
  rw [List.Nodup, List.pairwise_map, List.pairwise_filterMap, List.pairwise_iff_getElem]
  rintro first second insideFirst insideSecond before site held other again same
  have here : slots[first]?.join = some site := by
    rw [← Array.getElem?_toList, List.getElem?_eq_getElem insideFirst]
    exact held
  have there : slots[second]?.join = some other := by
    rw [← Array.getElem?_toList, List.getElem?_eq_getElem insideSecond]
    exact again
  exact Nat.ne_of_lt before (reached.once here there same)

theorem exists_refill {used : Nat} {sites : List Site} (reached : Reached slots)
    (keyed : ∀ site ∈ sites, site.address ≠ 0)
    (nodup : ((sites ++ slots.toList.filterMap id).map Site.address).Nodup)
    (few : (sites ++ slots.toList.filterMap id).length ≤ slots.size) :
    ∃ after, refill used slots sites = .ok after := by
  -- Sites that are still to come and those in the slots are always the same ones together.
  induction sites generalizing slots with
  | nil => exact ⟨slots, rfl⟩
  | cons site rest ih =>
    have room : (slots.toList.filterMap id).length < slots.size := by
      rw [List.cons_append, List.length_cons, List.length_append] at few
      omega
    obtain ⟨room, inside, free⟩ := exists_free room
    have absent : ∀ (slot : Nat) (met : Site),
        slots[slot]?.join = some met → met.address ≠ site.address := by
      intro slot met held same
      have member : met ∈ slots.toList.filterMap id := (mem_sites (t := ⟨slots, used⟩)).2 ⟨slot, held⟩
      have first := (List.nodup_cons.1 nodup).1
      exact first (List.mem_map.2 ⟨met, List.mem_append_right rest member, same⟩)
    unfold refill
    split
    · next slot met found =>
      obtain ⟨held, same⟩ := probeFrom_found found
      exact absurd same (absent slot met held)
    · next full => exact absurd full (probeSlots_ne_full inside free site.address)
    · next slot found =>
      obtain ⟨inside, free⟩ := probeSlots_free found
      have perm := ((sites_set_perm inside free site).append_left rest).trans List.perm_middle
      apply ih (reached_set reached (keyed site (.head rest)) found)
        (fun other member => keyed other (.tail site member))
      · exact (perm.map Site.address).nodup_iff.2 nodup
      · rw [Array.size_setIfInBounds, perm.length_eq]
        exact few

end Slots

variable {t : SiteTable} {address : UInt64} {vector : VectorRef} {fault : Fault}

theorem WellFormed.ne_zero (wf : t.WellFormed) {site : Site} (member : site ∈ t.sites) :
    site.address ≠ 0 := by
  obtain ⟨slot, held⟩ := mem_sites.1 member
  exact (wf slot site held).1

theorem WellFormed.exists_grow (wf : t.WellFormed) :
    ∃ after, t.grow = .ok after ∧ after.capacity = 2 * t.capacity := by
  have fit : t.sites.length ≤ (Array.replicate (2 * t.slots.size) (none : Option Site)).size := by
    have most : t.sites.length ≤ t.slots.toList.length := List.length_filterMap_le id _
    rw [Array.length_toList] at most
    calc t.sites.length ≤ t.slots.size := most
      _ ≤ 2 * t.slots.size := Nat.le_mul_of_pos_left _ Nat.two_pos
      _ = _ := Array.size_replicate.symm
  have keyed : ∀ site ∈ t.sites, site.address ≠ 0 := fun site member => wf.ne_zero member
  obtain ⟨slots, done⟩ : ∃ slots,
      refill t.used (Array.replicate (2 * t.slots.size) none) t.sites = .ok slots := by
    apply exists_refill (reached_replicate _) keyed
    · rw [filterMap_replicate_none, List.append_nil]
      exact nodup_addresses wf
    · rw [filterMap_replicate_none, List.append_nil]
      exact fit
  have sizes := (refill_ok (reached_replicate _) keyed done).2.1
  refine ⟨{ t with slots }, ?_, ?_⟩
  · unfold grow
    rw [done]
    rfl
  · unfold capacity
    rw [sizes, Array.size_replicate]

structure Filled (t : SiteTable) : Prop where
  wellFormed : t.WellFormed
  used_eq : t.used = t.sites.length
  capacity_least : IsLeast (Roomy t.used) t.capacity

theorem filled_empty : (∅ : SiteTable).Filled where
  wellFormed := wellFormed_empty
  used_eq := by rw [sites_empty]; rfl
  capacity_least := isLeast_roomy_zero

theorem Filled.exists_free (filled : t.Filled) :
    ∃ slot < t.slots.size, t.slots[slot]?.join = none := by
  apply SiteTable.exists_free
  have few := lt_of_roomy filled.capacity_least.1
  rw [filled.used_eq] at few
  exact few

theorem Filled.probe_ne_full (filled : t.Filled) (address : UInt64) : t.probe address ≠ .full := by
  obtain ⟨slot, inside, free⟩ := filled.exists_free
  exact probeSlots_ne_full inside free address

theorem Filled.exists_makeRoom (filled : t.Filled) :
    ∃ room, t.makeRoom = .ok room ∧ room.WellFormed ∧ room.sites.Perm t.sites ∧
      room.used = t.used ∧ IsLeast (Roomy (t.used + 1)) room.capacity := by
  have least := isLeast_roomy_succ filled.capacity_least
  unfold capacity at least
  unfold makeRoom
  split
  · next crowded =>
    obtain ⟨grown, done, doubled⟩ := filled.wellFormed.exists_grow
    obtain ⟨grownWf, perm, used⟩ := grow_ok filled.wellFormed done
    rw [if_pos crowded] at least
    exact ⟨grown, done, grownWf, perm, used, doubled ▸ least⟩
  · next roomy =>
    rw [if_neg roomy] at least
    exact ⟨t, rfl, filled.wellFormed, .refl _, rfl, least⟩

theorem Filled.exists_create (filled : t.Filled) (keyed : address ≠ 0)
    (absent : t.find? address = none) (vector : VectorRef) :
    ∃ l, t.create address vector = .ok l ∧ l.table.Filled := by
  obtain ⟨room, made, wf, perm, used, least⟩ := filled.exists_makeRoom
  have counted : room.used = room.sites.length := by
    rw [used, perm.length_eq, filled.used_eq]
  have few : room.sites.length < room.slots.size := by
    rw [← counted, used]
    exact Nat.lt_of_succ_lt (lt_of_roomy least.1)
  obtain ⟨slot, inside, free⟩ := SiteTable.exists_free few
  unfold create
  rw [made]
  simp only [bind, Except.bind]
  split
  · next slot met found =>
    obtain ⟨held, same⟩ := probeFrom_found found
    have member : met ∈ t.sites := perm.mem_iff.1 (mem_sites.2 ⟨slot, held⟩)
    rw [(find?_eq_some_iff filled.wellFormed).2 ⟨member, same⟩] at absent
    contradiction
  · next full => exact absurd full (probeSlots_ne_full inside free address)
  · next slot found =>
    obtain ⟨inside, free⟩ := probeSlots_free found
    refine ⟨_, rfl, @reached_set _ _ ⟨address, vector, .unset⟩ wf keyed found, ?_, ?_⟩
    · rw [counted]
      exact (sites_set_perm inside free _).length_eq.symm
    · simp only [capacity, Array.size_setIfInBounds, used]
      exact least

/-- Ways to use a table against its rules, and the faults that they are. -/
inductive Misuses (t : SiteTable) : UInt64 → VectorRef → Fault → Prop where
  | zero (vector : VectorRef) : Misuses t 0 vector .zeroInstruction
  | differs {site : Site} {vector : VectorRef} (member : site ∈ t.sites)
      (other : site.vector ≠ vector) :
      Misuses t site.address vector (.vectorsDiffer site.address site.vector vector)

theorem exists_misuses {t : SiteTable} {address : UInt64} {vector : VectorRef} :
    (∃ fault, t.Misuses address vector fault) ↔
      address = 0 ∨ ∃ site ∈ t.sites, site.address = address ∧ site.vector ≠ vector := by
  constructor
  · rintro ⟨fault, misused⟩
    cases misused with
    | zero => exact .inl rfl
    | differs member other => exact .inr ⟨_, member, rfl, other⟩
  · rintro (rfl | ⟨site, member, rfl, other⟩)
    · exact ⟨_, .zero vector⟩
    · exact ⟨_, .differs member other⟩

theorem Filled.findOrCreate_error (filled : t.Filled) :
    t.findOrCreate address vector = .error fault ↔ t.Misuses address vector fault := by
  constructor
  · intro done
    unfold findOrCreate at done
    split at done
    · next zero =>
      cases done
      exact zero ▸ .zero vector
    · next keyed =>
      split at done
      · next full => exact absurd full (filled.probe_ne_full address)
      · next slot found =>
        -- With a free slot there is room, so that the site can be made.
        obtain ⟨l, made, -⟩ := filled.exists_create keyed (find?_of_free found) vector
        rw [made] at done
        contradiction
      · next slot site found =>
        split at done
        · contradiction
        · next other =>
          cases done
          obtain ⟨held, rfl⟩ := probeFrom_found found
          exact .differs (mem_sites.2 ⟨slot, held⟩) other
  · intro misused
    unfold findOrCreate
    cases misused with
    | zero => exact if_pos rfl
    | @differs site _ member other =>
      obtain ⟨slot, held⟩ := mem_sites.1 member
      obtain ⟨keyed, found⟩ := filled.wellFormed slot site held
      have probed : t.probe site.address = .found slot site := found
      rw [if_neg keyed, probed]
      exact if_neg other

theorem Filled.findOrCreate {l : Located} (filled : t.Filled)
    (done : t.findOrCreate address vector = .ok l) : l.table.Filled := by
  unfold SiteTable.findOrCreate at done
  split at done
  · contradiction
  · next keyed =>
    split at done
    · contradiction
    · next slot found =>
      obtain ⟨made, create, madeFilled⟩ := filled.exists_create keyed (find?_of_free found) vector
      rw [create] at done
      cases done
      exact madeFilled
    · split at done
      · cases done
        exact filled
      · contradiction

def write (t : SiteTable) (slot : Nat) (invariant : Invariant) : SiteTable :=
  { t with slots := t.slots.modify slot (Option.map (Site.withInvariant invariant)) }

theorem Located.learn_eq (l : Located) (invariant : Invariant) :
    l.learn invariant = l.table.write l.slot invariant :=
  rfl

theorem join_write (t : SiteTable) (slot : Nat) (invariant : Invariant) (other : Nat) :
    (t.write slot invariant).slots[other]?.join =
      if slot = other then t.slots[other]?.join.map (Site.withInvariant invariant)
      else t.slots[other]?.join := by
  unfold write
  rw [Array.getElem?_modify]
  split
  · cases t.slots[other]? with
    | none => rfl
    | some held => rfl
  · rfl

theorem address_write (t : SiteTable) (slot : Nat) (invariant : Invariant) (other : Nat) :
    (t.write slot invariant).slots[other]?.join.map Site.address =
      t.slots[other]?.join.map Site.address := by
  rw [join_write]
  split
  · rw [Option.map_map]
    rfl
  · rfl

private theorem length_filterMap_modify (l : List (Option Site)) (slot : Nat) (f : Site → Site) :
    ((l.modify slot (Option.map f)).filterMap id).length = (l.filterMap id).length := by
  induction l generalizing slot with
  | nil => cases slot <;> rfl
  | cons held rest ih =>
    cases slot with
    | zero => cases held <;> rfl
    | succ slot =>
      cases held with
      | none => exact ih slot
      | some site => exact congrArg Nat.succ (ih slot)

theorem Filled.write (filled : t.Filled) (slot : Nat) (invariant : Invariant) :
    (t.write slot invariant).Filled where
  wellFormed := reached_congr filled.wellFormed Array.size_modify (address_write t slot invariant)
  used_eq := by
    unfold SiteTable.write sites
    rw [Array.toList_modify, length_filterMap_modify]
    exact filled.used_eq
  capacity_least := by
    unfold SiteTable.write capacity
    rw [Array.size_modify]
    exact filled.capacity_least

end Overrun.SiteTable
