import Overrun.Learned.SiteTable
import Overrun.Proofs.Faults

/-! A search among the slots ends at the site it is for. Filling the free slot that a search ended at,
moving all sites to more slots and changing what sites have learned all leave it so. A table is
therefore a map from instructions to sites. -/

namespace Overrun.SiteTable

theorem join_setIfInBounds {slots : Array (Option Site)} {slot : Nat} (inside : slot < slots.size)
    (held : Option Site) (other : Nat) :
    (slots.setIfInBounds slot held)[other]?.join =
      if slot = other then held else slots[other]?.join := by
  rw [Array.getElem?_setIfInBounds, if_pos inside]
  split <;> rfl

theorem probeFrom_found {slots : Array (Option Site)} {address : UInt64} {start steps slot : Nat}
    {site : Site} (found : probeFrom slots address start steps = .found slot site) :
    slots[slot]?.join = some site ∧ site.address = address := by
  induction steps generalizing start with
  | zero => contradiction
  | succ steps ih =>
    unfold probeFrom at found
    split at found
    · contradiction
    · next met held =>
      split at found
      · next same =>
        cases found
        exact ⟨held, same⟩
      · exact ih found

theorem probeFrom_free {slots : Array (Option Site)} {address : UInt64} {start steps slot : Nat}
    (inside : start < slots.size) (found : probeFrom slots address start steps = .free slot) :
    slot < slots.size ∧ slots[slot]?.join = none := by
  induction steps generalizing start with
  | zero => contradiction
  | succ steps ih =>
    unfold probeFrom at found
    split at found
    · next free =>
      cases found
      exact ⟨inside, free⟩
    · split at found
      · contradiction
      · exact ih (Nat.mod_lt _ (Nat.zero_lt_of_lt inside)) found

/-- A search passes over no free slot, so it does not see one being filled. -/
theorem probeFrom_set_found {slots : Array (Option Site)} {address : UInt64}
    {start steps slot filled : Nat} {site new : Site} (inside : filled < slots.size)
    (free : slots[filled]?.join = none)
    (found : probeFrom slots address start steps = .found slot site) :
    probeFrom (slots.setIfInBounds filled (some new)) address start steps = .found slot site := by
  induction steps generalizing start with
  | zero => contradiction
  | succ steps ih =>
    have elsewhere : filled ≠ start := by
      intro here
      unfold probeFrom at found
      rw [← here, free] at found
      contradiction
    unfold probeFrom at found ⊢
    rw [join_setIfInBounds inside, if_neg elsewhere, Array.size_setIfInBounds]
    split at found
    · contradiction
    · split at found
      · next same => rw [if_pos same, found]
      · next other => rw [if_neg other, ih found]

theorem probeFrom_set_free {slots : Array (Option Site)} {start steps slot : Nat} {new : Site}
    (inside : slot < slots.size)
    (found : probeFrom slots new.address start steps = .free slot) :
    probeFrom (slots.setIfInBounds slot (some new)) new.address start steps = .found slot new := by
  induction steps generalizing start with
  | zero => contradiction
  | succ steps ih =>
    unfold probeFrom at found ⊢
    rw [join_setIfInBounds inside, Array.size_setIfInBounds]
    by_cases here : slot = start
    · simp only [here, if_true]
    · rw [if_neg here]
      split at found
      · cases found
        exact absurd rfl here
      · split at found
        · contradiction
        · next other => rw [if_neg other, ih found]

theorem probeFrom_congr {slots changed : Array (Option Site)} {address : UInt64}
    {start steps slot : Nat} {site : Site} (sizes : changed.size = slots.size)
    (addresses : ∀ slot : Nat,
      changed[slot]?.join.map Site.address = slots[slot]?.join.map Site.address)
    (found : probeFrom slots address start steps = .found slot site) :
    ∃ other, probeFrom changed address start steps = .found slot other := by
  induction steps generalizing start with
  | zero => contradiction
  | succ steps ih =>
    have same := addresses start
    unfold probeFrom at found ⊢
    rw [sizes]
    split at found
    · contradiction
    · next met held =>
      rw [held, Option.map_some] at same
      obtain ⟨other, otherHeld, otherAddress⟩ := Option.map_eq_some_iff.1 same
      rw [otherHeld]
      dsimp only
      rw [otherAddress]
      split at found
      · next meant =>
        cases found
        exact ⟨other, if_pos meant⟩
      · next meant =>
        rw [if_neg meant]
        exact ih found

theorem probeSlots_free {slots : Array (Option Site)} {address : UInt64} {slot : Nat}
    (found : probeSlots slots address = .free slot) :
    slot < slots.size ∧ slots[slot]?.join = none := by
  have some : 0 < slots.size := by
    rcases Nat.eq_zero_or_pos slots.size with none | some
    · unfold probeSlots at found
      rw [none] at found
      contradiction
    · exact some
  exact probeFrom_free (Nat.mod_lt _ some) found

/-- Every site is where the search for it ends. -/
def Reached (slots : Array (Option Site)) : Prop :=
  ∀ slot site, slots[slot]?.join = some site →
    site.address ≠ 0 ∧ probeSlots slots site.address = .found slot site

theorem reached_set {slots : Array (Option Site)} {slot : Nat} {new : Site}
    (reached : Reached slots) (keyed : new.address ≠ 0)
    (found : probeSlots slots new.address = .free slot) :
    Reached (slots.setIfInBounds slot (some new)) := by
  obtain ⟨inside, free⟩ := probeSlots_free found
  intro other site held
  unfold probeSlots home
  rw [Array.size_setIfInBounds]
  rw [join_setIfInBounds inside] at held
  split at held
  · next same =>
    cases held
    rw [← same]
    exact ⟨keyed, probeFrom_set_free inside found⟩
  · obtain ⟨siteKeyed, siteFound⟩ := reached other site held
    exact ⟨siteKeyed, probeFrom_set_found inside free siteFound⟩

theorem reached_congr {slots changed : Array (Option Site)} (reached : Reached slots)
    (sizes : changed.size = slots.size)
    (addresses : ∀ slot : Nat,
      changed[slot]?.join.map Site.address = slots[slot]?.join.map Site.address) :
    Reached changed := by
  intro slot site held
  have same := addresses slot
  rw [held, Option.map_some] at same
  obtain ⟨old, oldHeld, oldAddress⟩ := Option.map_eq_some_iff.1 same.symm
  obtain ⟨keyed, oldFound⟩ := reached slot old oldHeld
  rw [oldAddress] at keyed oldFound
  obtain ⟨other, found⟩ := probeFrom_congr sizes addresses oldFound
  have final : probeSlots changed site.address = .found slot other := by
    unfold probeSlots home
    rw [sizes]
    exact found
  have otherHeld := (probeFrom_found final).1
  rw [held] at otherHeld
  cases otherHeld
  exact ⟨keyed, final⟩

def WellFormed (t : SiteTable) : Prop :=
  Reached t.slots

theorem reached_replicate (count : Nat) : Reached (Array.replicate count none) := by
  intro slot site held
  rw [Array.getElem?_replicate] at held
  split at held <;> contradiction

theorem wellFormed_empty : (∅ : SiteTable).WellFormed :=
  reached_replicate initialSlots

theorem mem_sites {t : SiteTable} {site : Site} :
    site ∈ t.sites ↔ ∃ slot : Nat, t.slots[slot]?.join = some site := by
  unfold sites
  rw [List.mem_filterMap]
  simp only [id_eq, exists_eq_right, Option.join_eq_some_iff]
  rw [List.mem_iff_getElem?]
  simp only [Array.getElem?_toList]

theorem find?_eq_some_iff {t : SiteTable} (wf : t.WellFormed) {address : UInt64} {site : Site} :
    t.find? address = some site ↔ site ∈ t.sites ∧ site.address = address := by
  constructor
  · intro found
    unfold find? at found
    split at found
    · next slot met ended =>
      cases found
      obtain ⟨held, same⟩ := probeFrom_found ended
      exact ⟨mem_sites.2 ⟨slot, held⟩, same⟩
    all_goals contradiction
  · rintro ⟨member, rfl⟩
    obtain ⟨slot, held⟩ := mem_sites.1 member
    unfold find? probe
    rw [(wf slot site held).2]

theorem find?_of_found {t : SiteTable} {address : UInt64} {slot : Nat} {site : Site}
    (found : t.probe address = .found slot site) : t.find? address = some site := by
  unfold find?
  rw [found]

theorem find?_of_free {t : SiteTable} {address : UInt64} {slot : Nat}
    (found : t.probe address = .free slot) : t.find? address = none := by
  unfold find?
  rw [found]

private theorem filterMap_set_perm {l : List (Option Site)} {slot : Nat}
    (free : l[slot]? = some none) (site : Site) :
    ((l.set slot (some site)).filterMap id).Perm (site :: l.filterMap id) := by
  induction l generalizing slot with
  | nil => contradiction
  | cons held rest ih =>
    cases slot with
    | zero =>
      cases Option.some.inj free
      exact List.Perm.refl _
    | succ slot =>
      have later := @ih slot free
      cases held with
      | none => exact later
      | some first => exact (later.cons first).trans (List.Perm.swap site first _)

theorem sites_set_perm {slots : Array (Option Site)} {slot : Nat} (inside : slot < slots.size)
    (free : slots[slot]?.join = none) (site : Site) :
    ((slots.setIfInBounds slot (some site)).toList.filterMap id).Perm
      (site :: slots.toList.filterMap id) := by
  rw [Array.toList_setIfInBounds]
  apply filterMap_set_perm
  rw [Array.getElem?_toList, Array.getElem?_eq_getElem inside]
  rw [Array.getElem?_eq_getElem inside, Option.join_some] at free
  rw [free]

theorem refill_ok {used : Nat} {slots after : Array (Option Site)} {sites : List Site}
    (reached : Reached slots) (keyed : ∀ site ∈ sites, site.address ≠ 0)
    (done : refill used slots sites = .ok after) :
    Reached after ∧ after.size = slots.size ∧
      (after.toList.filterMap id).Perm (sites ++ slots.toList.filterMap id) := by
  induction sites generalizing slots with
  | nil =>
    cases done
    exact ⟨reached, rfl, List.Perm.refl _⟩
  | cons site rest ih =>
    unfold refill at done
    split at done
    · contradiction
    · contradiction
    · next slot found =>
      obtain ⟨inside, free⟩ := probeSlots_free found
      obtain ⟨afterReached, sizes, perm⟩ := ih
        (reached_set reached (keyed site (.head rest)) found)
        (fun other member => keyed other (.tail site member)) done
      refine ⟨afterReached, sizes.trans Array.size_setIfInBounds, perm.trans ?_⟩
      have added := (sites_set_perm inside free site).append_left rest
      exact added.trans List.perm_middle

theorem filterMap_replicate_none (count : Nat) :
    ((Array.replicate count (none : Option Site)).toList.filterMap id) = [] := by
  simp

theorem sites_empty : (∅ : SiteTable).sites = [] :=
  filterMap_replicate_none initialSlots

theorem grow_ok {t after : SiteTable} (wf : t.WellFormed) (done : t.grow = .ok after) :
    after.WellFormed ∧ after.sites.Perm t.sites ∧ after.used = t.used := by
  unfold grow at done
  obtain ⟨slots, refilled, done⟩ := bind_eq_ok.1 done
  cases done
  have keyed : ∀ site ∈ t.sites, site.address ≠ 0 := by
    intro site member
    obtain ⟨slot, held⟩ := mem_sites.1 member
    exact (wf slot site held).1
  obtain ⟨reached, -, perm⟩ := refill_ok (reached_replicate _) keyed refilled
  rw [filterMap_replicate_none, List.append_nil] at perm
  exact ⟨reached, perm, rfl⟩

theorem makeRoom_ok {t after : SiteTable} (wf : t.WellFormed) (done : t.makeRoom = .ok after) :
    after.WellFormed ∧ after.sites.Perm t.sites := by
  unfold makeRoom at done
  split at done
  · obtain ⟨afterWf, perm, -⟩ := grow_ok wf done
    exact ⟨afterWf, perm⟩
  · cases done
    exact ⟨wf, List.Perm.refl _⟩

/-- What holds of a site located for an instruction in a table. -/
structure Locates (t : SiteTable) (address : UInt64) (vector : VectorRef) (l : Located) : Prop where
  wellFormed : l.table.WellFormed
  held : l.table.slots[l.slot]?.join = some l.site
  address_eq : l.site.address = address
  vector_eq : l.site.vector = vector
  known_or_new : (l.table = t ∧ t.find? address = some l.site) ∨
    (t.find? address = none ∧ l.site.invariant = .unset ∧ l.table.sites.Perm (l.site :: t.sites))

theorem create_ok {t : SiteTable} {address : UInt64} {vector : VectorRef} {l : Located}
    (wf : t.WellFormed) (keyed : address ≠ 0) (absent : t.find? address = none)
    (done : t.create address vector = .ok l) : t.Locates address vector l := by
  unfold create at done
  obtain ⟨grown, made, done⟩ := bind_eq_ok.1 done
  obtain ⟨grownWf, perm⟩ := makeRoom_ok wf made
  split at done
  · contradiction
  · contradiction
  · next slot found =>
    cases done
    obtain ⟨inside, free⟩ := probeSlots_free found
    refine ⟨@reached_set _ _ ⟨address, vector, .unset⟩ grownWf keyed found, ?_, rfl, rfl,
      .inr ⟨absent, rfl, ?_⟩⟩
    · rw [join_setIfInBounds inside, if_pos rfl]
    · exact (sites_set_perm inside free _).trans (perm.cons _)

theorem findOrCreate_ok {t : SiteTable} {address : UInt64} {vector : VectorRef} {l : Located}
    (wf : t.WellFormed) (done : t.findOrCreate address vector = .ok l) :
    t.Locates address vector l := by
  unfold findOrCreate at done
  split at done
  · contradiction
  · next keyed =>
    split at done
    · contradiction
    · next slot found => exact create_ok wf keyed (find?_of_free found) done
    · next slot site found =>
      split at done
      · next same =>
        cases done
        obtain ⟨held, addressed⟩ := probeFrom_found found
        exact ⟨wf, held, addressed, same, .inl ⟨rfl, find?_of_found found⟩⟩
      · contradiction

section Located

variable {l : Located}

theorem Located.join_learn (held : l.table.slots[l.slot]?.join = some l.site)
    (invariant : Invariant) (slot : Nat) :
    (l.learn invariant).slots[slot]?.join =
      if l.slot = slot then some (l.site.withInvariant invariant)
      else l.table.slots[slot]?.join := by
  unfold learn
  rw [Array.getElem?_modify]
  split
  · next same =>
    rw [← same, Option.join_eq_some_iff.1 held]
    rfl
  · rfl

theorem Located.learn_wellFormed (wf : l.table.WellFormed)
    (held : l.table.slots[l.slot]?.join = some l.site) (invariant : Invariant) :
    (l.learn invariant).WellFormed := by
  apply reached_congr wf
  · exact Array.size_modify
  · intro slot
    rw [join_learn held]
    split
    · next same =>
      rw [← same, held]
      rfl
    · rfl

theorem Located.mem_learn (wf : l.table.WellFormed)
    (held : l.table.slots[l.slot]?.join = some l.site) {invariant : Invariant} {site : Site} :
    site ∈ (l.learn invariant).sites ↔
      site = l.site.withInvariant invariant ∨
        site ∈ l.table.sites ∧ site.address ≠ l.site.address := by
  simp only [mem_sites, join_learn held]
  constructor
  · rintro ⟨slot, found⟩
    split at found
    · exact .inl (Option.some.inj found).symm
    · next elsewhere =>
      refine .inr ⟨⟨slot, found⟩, fun same => elsewhere ?_⟩
      have here := (wf l.slot l.site held).2
      have there := (wf slot site found).2
      rw [same, here] at there
      cases there
      rfl
  · rintro (rfl | ⟨⟨slot, found⟩, other⟩)
    · exact ⟨l.slot, if_pos rfl⟩
    · refine ⟨slot, ?_⟩
      rw [if_neg, found]
      rintro rfl
      rw [held] at found
      exact other (congrArg Site.address (Option.some.inj found).symm)

end Located

section Locates

variable {t : SiteTable} {address : UInt64} {vector : VectorRef} {l : Located}

/-- Before anything is learned at a site that was just located, it has learned what the table says,
or nothing at all. -/
theorem Locates.invariant_eq (located : t.Locates address vector l) :
    l.site.invariant = ((t.find? address).map (·.invariant)).getD .unset := by
  rcases located.known_or_new with ⟨-, known⟩ | ⟨absent, new, -⟩
  · rw [known]
    rfl
  · rw [absent, new]
    rfl

theorem Locates.site_eq (located : t.Locates address vector l) (invariant : Invariant) :
    l.site.withInvariant invariant = ⟨address, vector, invariant⟩ := by
  rw [← located.address_eq, ← located.vector_eq]
  rfl

theorem Locates.learn_wellFormed (located : t.Locates address vector l) (invariant : Invariant) :
    (l.learn invariant).WellFormed :=
  Located.learn_wellFormed located.wellFormed located.held invariant

theorem Locates.mem_learn (located : t.Locates address vector l) {invariant : Invariant}
    {site : Site} :
    site ∈ (l.learn invariant).sites ↔
      site = ⟨address, vector, invariant⟩ ∨ site ∈ t.sites ∧ site.address ≠ address := by
  rw [Located.mem_learn located.wellFormed located.held, located.site_eq, located.address_eq]
  apply or_congr Iff.rfl
  apply and_congr_left
  intro other
  rcases located.known_or_new with ⟨same, -⟩ | ⟨-, -, perm⟩
  · rw [same]
  · rw [perm.mem_iff, List.mem_cons]
    constructor
    · rintro (rfl | old)
      · exact absurd located.address_eq other
      · exact old
    · exact .inr

theorem Locates.find?_learn (wf : t.WellFormed) (located : t.Locates address vector l)
    (invariant : Invariant) (other : UInt64) :
    (l.learn invariant).find? other =
      if other = address then some ⟨address, vector, invariant⟩ else t.find? other := by
  have learnedWf := located.learn_wellFormed invariant
  split
  · next same => exact (find?_eq_some_iff learnedWf).2 ⟨located.mem_learn.2 (.inl rfl), same.symm⟩
  · next different =>
    apply Option.ext
    intro site
    rw [find?_eq_some_iff learnedWf, find?_eq_some_iff wf, located.mem_learn]
    constructor
    · rintro ⟨rfl | old, same⟩
      · exact absurd same.symm different
      · exact ⟨old.1, same⟩
    · rintro ⟨old, same⟩
      exact ⟨.inr ⟨old, same ▸ different⟩, same⟩

end Locates

def forgotten (doomed : Invariant → Bool) (site : Site) : Site :=
  if doomed site.invariant then site.withInvariant .unknown else site

theorem forgotten_address (doomed : Invariant → Bool) (site : Site) :
    (forgotten doomed site).address = site.address := by
  unfold forgotten
  split <;> rfl

theorem sites_forget (doomed : Invariant → Bool) (t : SiteTable) :
    (t.forget doomed).sites = t.sites.map (forgotten doomed) := by
  unfold sites forget mapSites
  rw [Array.toList_map, List.filterMap_map, List.map_filterMap]
  rfl

theorem forget_wellFormed {t : SiteTable} (wf : t.WellFormed) (doomed : Invariant → Bool) :
    (t.forget doomed).WellFormed := by
  apply reached_congr wf
  · exact Array.size_map
  · intro slot
    unfold forget mapSites
    rw [Array.getElem?_map]
    cases t.slots[slot]? with
    | none => rfl
    | some held =>
      cases held with
      | none => rfl
      | some site => exact congrArg some (forgotten_address doomed site)

section Again

variable {t : SiteTable} {address : UInt64} {vector : VectorRef} {l : Located} {site : Site}

theorem findOrCreate_ne_zero (done : t.findOrCreate address vector = .ok l) : address ≠ 0 := by
  unfold findOrCreate at done
  split at done
  · contradiction
  · assumption

theorem findOrCreate_of_find? (keyed : address ≠ 0) (known : t.find? address = some site)
    (same : site.vector = vector) : ∃ slot, t.findOrCreate address vector = .ok ⟨t, slot, site⟩ := by
  unfold find? at known
  split at known
  · next slot met found =>
    cases known
    refine ⟨slot, ?_⟩
    unfold findOrCreate
    rw [if_neg keyed, found]
    exact if_pos same
  all_goals contradiction

theorem Located.learn_same (held : l.table.slots[l.slot]?.join = some l.site) :
    l.learn l.site.invariant = l.table := by
  have same : l.table.slots.modify l.slot (Option.map (Site.withInvariant l.site.invariant)) =
      l.table.slots := by
    apply Array.ext_getElem?
    intro slot
    rw [Array.getElem?_modify]
    split
    · next here =>
      rw [← here, Option.join_eq_some_iff.1 held]
      rfl
    · rfl
  unfold learn
  rw [same]

/-- Whether tables differ in one site at most, and the second one has it. -/
structure Replaces (t after : SiteTable) (site : Site) : Prop where
  find?_eq : ∀ address, after.find? address =
    if address = site.address then some site else t.find? address
  mem_iff : ∀ other, other ∈ after.sites ↔
    other = site ∨ other ∈ t.sites ∧ other.address ≠ site.address

theorem Locates.replaces (located : t.Locates address vector l) (wf : t.WellFormed)
    (invariant : Invariant) : t.Replaces (l.learn invariant) ⟨address, vector, invariant⟩ :=
  ⟨located.find?_learn wf invariant, fun _ => located.mem_learn⟩

theorem Replaces.forall_mem {P : Site → Prop} {after : SiteTable} (replaces : t.Replaces after site)
    (new : P site) (old : ∀ other ∈ t.sites, P other) : ∀ other ∈ after.sites, P other := by
  intro other member
  rcases (replaces.mem_iff other).1 member with rfl | ⟨there, -⟩
  · exact new
  · exact old other there

end Again

end Overrun.SiteTable
