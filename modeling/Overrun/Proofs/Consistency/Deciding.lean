import Mathlib.Data.Finset.Dedup
import Overrun.Proofs.Address.Run
import Overrun.Proofs.Checker.Reachable
import Overrun.Proofs.Consistency.Audit
import Overrun.Proofs.Learned.Paths

/-! The search for contradictions decides whether a thread is in order. Whatever its activations list and
whatever its tables hold, nothing is found just when the listings are the registered blocks, each once
and at its depth, and each site is where a search for it ends. -/

namespace Overrun

namespace IntervalMap

variable {m : IntervalMap Registration}

theorem WellFormed.nodup_listing (wf : m.WellFormed) : (m.entries.map Entry.listing).Nodup := by
  refine List.Nodup.map_on (fun a first b second same => ?_) wf.nodup
  have starts : a.interval.first = b.interval.first := congrArg Prod.fst same
  exact wf.disjoint.eq_of_mem first second a.interval.first_mem (starts ▸ b.interval.first_mem)

end IntervalMap

namespace Thread

variable {t : Thread} {address : UInt64} {depth : Nat}

theorem mem_listings :
    (address, depth) ∈ t.listings ↔ ∃ a, t.stack.get? depth = some a ∧ address ∈ a.registered := by
  unfold listings
  simp only [List.mem_flatMap, Prod.exists, mem_frames_iff, List.mem_map, Prod.mk.injEq]
  constructor
  · rintro ⟨a, _, there, _, listed, rfl, rfl⟩
    exact ⟨a, there, listed⟩
  · rintro ⟨a, there, listed⟩
    exact ⟨a, depth, there, address, listed, rfl, rfl⟩

theorem mem_listedAt : depth ∈ t.listedAt address ↔ (address, depth) ∈ t.listings := by
  simp [listedAt]

theorem count_listings_le (t : Thread) (address : UInt64) (depth : Nat) :
    t.listings.count (address, depth) ≤ (t.listedAt address).length := by
  rw [listedAt, List.length_map, ← List.countP_eq_length_filter]
  exact List.countP_mono_left fun listing _ same => by simp_all

theorem matches_of_listedAt (wf : t.registered.WellFormed)
    (registered : ∀ depth a, t.stack.get? depth = some a → ∀ address ∈ a.registered,
      ∃ e ∈ t.registered.entries, e.interval.first = address)
    (listed : ∀ e ∈ t.registered.entries, t.listedAt e.interval.first = [e.value.depth]) :
    t.registered.Matches t.listings := by
  have start : ∀ address depth, (address, depth) ∈ t.listings →
      ∃ e ∈ t.registered.entries, e.interval.first = address := by
    intro address depth member
    obtain ⟨a, there, inside⟩ := mem_listings.1 member
    exact registered depth a there address inside
  have nodup : t.listings.Nodup := by
    refine List.nodup_iff_count_le_one.2 fun (address, depth) => ?_
    by_cases member : (address, depth) ∈ t.listings
    · obtain ⟨e, entry, rfl⟩ := start address depth member
      have bound := t.count_listings_le e.interval.first depth
      rw [listed e entry] at bound
      exact bound
    · rw [List.count_eq_zero.2 member]
      exact Nat.zero_le 1
  refine (List.perm_ext_iff_of_nodup nodup wf.nodup_listing).2 fun (address, depth) => ?_
  rw [List.mem_map]
  constructor
  · intro member
    obtain ⟨e, entry, rfl⟩ := start address depth member
    have held := mem_listedAt.2 member
    rw [listed e entry, List.mem_singleton] at held
    exact ⟨e, entry, held ▸ rfl⟩
  · rintro ⟨e, entry, ⟨⟩⟩
    rw [← mem_listedAt, listed e entry]
    exact List.mem_singleton_self _

def placings (t : Thread) : Finset (UInt64 × Nat) :=
  (t.registered.entries.map Entry.listing).toFinset

theorem listings_eq_placings_iff (wf : t.registered.WellFormed) :
    (t.listings : Multiset (UInt64 × Nat)) = t.placings.val ↔ t.registered.Matches t.listings := by
  unfold placings
  rw [List.toFinset_val, wf.nodup_listing.dedup, Multiset.coe_eq_coe]
  rfl

/-- Whether a thread is in order, said without a search. -/
structure Orderly (t : Thread) : Prop where
  bottom : ∃ a, t.stack.get? 0 = some a ∧ a.creationSp = topAddress
  /-- What the activations list, each listing with the depth of its activation, is what is registered. -/
  listed : (t.listings : Multiset (UInt64 × Nat)) = t.placings.val
  found : ∀ a ∈ t.stack.frames, ∀ slot site, a.sites.slots[slot]? = some (some site) →
    site.address ≠ 0 ∧ a.sites.probe site.address = .found slot site

theorem audit_eq_nil_iff_orderly (wf : t.registered.WellFormed) (tid : ThreadId) :
    t.audit tid = [] ↔ t.Orderly := by
  rw [audit_eq_nil_iff wf.disjoint]
  constructor
  · rintro ⟨⟨bottom, there, sentinel⟩, activations, listed⟩
    refine ⟨⟨bottom, there, beq_iff_eq.1 sentinel⟩, ?_, fun a member slot site held => ?_⟩
    · refine (listings_eq_placings_iff wf).2 (matches_of_listedAt wf ?_ listed)
      exact fun depth a there => (activations depth a there).1
    · obtain ⟨depth, there⟩ := List.mem_iff_getElem?.1 member
      exact (activations depth a there).2 slot site (Option.join_eq_some_iff.2 held)
  · rintro ⟨⟨bottom, there, top⟩, listed, found⟩
    have balanced := (listings_eq_placings_iff wf).1 listed
    refine ⟨⟨bottom, there, beq_iff_eq.2 top⟩, fun depth a there => ⟨?_, ?_⟩,
      fun e member => listedAt_of_matches wf balanced member⟩
    · intro address inside
      obtain ⟨e, member, same⟩ := balanced.mem_iff.1 (mem_listings.2 ⟨a, there, inside⟩)
      exact ⟨e, member, congrArg Prod.fst same⟩
    · intro slot site held
      exact found a (List.mem_iff_getElem?.2 ⟨depth, there⟩) slot site (Option.join_eq_some_iff.1 held)

/-- The search finds nothing just in threads that are in order, and no table it searches is full. That what
was learned of globals is out of date is found just where it is. -/
theorem audit_decides (t : Thread) (tid : ThreadId) :
    (∀ ops, t.registered = (IntervalMap.run ∅ ops).1 →
      (∀ a ∈ t.stack.frames, none ∈ a.sites.slots) →
      (∀ a ∈ t.stack.frames, ∀ address, a.sites.probe address ≠ .full) ∧
        (t.audit tid = [] ↔ t.Orderly)) ∧
    ∀ globals, t.auditInvariants tid globals = [] ↔
      ∀ site ∈ t.sites, ∀ node span block, site.invariant = .global node span block →
        ∃ e ∈ globals.entries, e.id = node := by
  constructor
  · intro ops built roomy
    have wf : t.registered.WellFormed := built ▸ (IntervalMap.wellFormed_empty.run ops).1
    refine ⟨fun a member address => ?_, audit_eq_nil_iff_orderly wf tid⟩
    obtain ⟨slot, inside, free⟩ := Array.mem_iff_getElem.1 (roomy a member)
    have room : a.sites.slots[slot]?.join = none := by
      rw [Array.getElem?_eq_getElem inside, free]
      rfl
    exact SiteTable.probeSlots_ne_full inside room address
  · intro globals
    rw [auditInvariants_eq_nil_iff]
    refine forall_congr' fun site => forall_congr' fun _ => ?_
    cases site.invariant <;> simp [Invariant.globalNode?]

/-- The running sample, with one more listing of its buffer: by the activation on top. -/
def sampleListedTwice : Thread :=
  let stack := Checker.sampleThread.stack
  let top := { stack.top with registered := 0x7fe0 :: stack.top.registered }
  { Checker.sampleThread with stack := ⟨top, stack.below⟩ }

theorem audit_decides_sample :
    Checker.sampleThread.Orderly ∧ ¬sampleListedTwice.Orderly := by
  have built : Checker.sampleThread.registered =
      (IntervalMap.run ∅ [.insert ⟨0x7fe0, 0x7fef, by decide, by decide⟩ ⟨⟨⟨0⟩, 0⟩, 1⟩]).1 := by decide +kernel
  have roomy : ∀ a ∈ Checker.sampleThread.stack.frames, none ∈ a.sites.slots := by decide +kernel
  have roomyTwice : ∀ a ∈ sampleListedTwice.stack.frames, none ∈ a.sites.slots := by decide +kernel
  constructor
  · exact ((Checker.sampleThread.audit_decides ⟨0⟩).1 _ built roomy).2.1 (by decide +kernel)
  · intro orderly
    have quiet := ((sampleListedTwice.audit_decides ⟨0⟩).1 _ built roomyTwice).2.2 orderly
    have told : sampleListedTwice.audit ⟨0⟩ ≠ [] := by decide +kernel
    exact told quiet

end Thread

end Overrun
