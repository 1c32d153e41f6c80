import Mathlib.Data.List.Perm.Subperm
import Overrun.Proofs.Thread.Classification

/-! Recent hits under any sequence of insertions, lookups and clearings. As long as each hit that is inserted is
apart from those that are there, they are a set of disjoint intervals of no more than so many, and a lookup
finds the one at an address. Classification inserts what the map has and the hits have not, which is apart. -/

namespace Overrun

namespace RecentHits

inductive Operation (α : Type) where
  | insert (hit : Entry α)
  | lookup (address : UInt64)
  | clear

variable {α : Type}

def apply (h : RecentHits α) : Operation α → RecentHits α
  | .insert hit => h.insert hit
  | .lookup address => ((h.lookup address).map Prod.snd).getD h
  | .clear => h.clear

def run (h : RecentHits α) (ops : List (Operation α)) : RecentHits α :=
  ops.foldl apply h

/-- What has been inserted since the last clearing. -/
def Operation.inserted (before : List (Entry α)) : Operation α → List (Entry α)
  | insert hit => hit :: before
  | lookup _ => before
  | clear => []

/-- Whether what an operation inserts is apart from the hits there are. -/
def Accepts (h : RecentHits α) : Operation α → Prop
  | .insert hit => ∀ e ∈ h.entries, ¬e.interval.Overlaps hit.interval
  | .lookup _ | .clear => True

def Admits (h : RecentHits α) : List (Operation α) → Prop
  | [] => True
  | op :: rest => h.Accepts op ∧ (h.apply op).Admits rest

instance (h : RecentHits α) (op : Operation α) : Decidable (h.Accepts op) :=
  match op with
  | .insert hit => inferInstanceAs (Decidable (∀ e ∈ h.entries, ¬e.interval.Overlaps hit.interval))
  | .lookup _ | .clear => inferInstanceAs (Decidable True)

instance decidableAdmits : (h : RecentHits α) → (ops : List (Operation α)) →
    Decidable (h.Admits ops)
  | _, [] => inferInstanceAs (Decidable True)
  | h, op :: rest =>
    have := decidableAdmits (h.apply op) rest
    inferInstanceAs (Decidable (_ ∧ _))

/-- Whether recent hits are disjoint, not too many, and all of them among those inserted, each for one
insertion. -/
structure Bounded (h : RecentHits α) (capacity : Nat) (inserted : List (Entry α)) : Prop where
  capacity_eq : h.capacity = capacity
  apart : h.entries.Pairwise fun a b => ¬a.interval.Overlaps b.interval
  few : h.entries.length ≤ capacity
  stem : h.entries.Subperm inserted

section Steps

variable {h : RecentHits α} {capacity : Nat} {inserted : List (Entry α)}

theorem bounded_empty (capacity : Nat) : (empty capacity : RecentHits α).Bounded capacity [] :=
  ⟨rfl, .nil, Nat.zero_le _, List.nil_subperm⟩

theorem pairwise_apart_iff {entries others : List (Entry α)} (perm : entries.Perm others) :
    (entries.Pairwise fun a b => ¬a.interval.Overlaps b.interval) ↔
      others.Pairwise fun a b => ¬a.interval.Overlaps b.interval :=
  perm.pairwise_iff fun away overlap => away (Interval.overlaps_comm.1 overlap)

theorem Bounded.insert (bounded : h.Bounded capacity inserted) {hit : Entry α}
    (apart : ∀ e ∈ h.entries, ¬e.interval.Overlaps hit.interval) :
    (h.insert hit).Bounded capacity (hit :: inserted) := by
  have capacity_eq := bounded.capacity_eq
  by_cases none : h.capacity = 0
  · rw [RecentHits.insert, if_pos none]
    exact ⟨capacity_eq, bounded.apart, bounded.few,
      bounded.stem.trans (List.sublist_cons_self _ _).subperm⟩
  · obtain ⟨front, back, evicted, stood, cost, -, same⟩ := insert_eq hit none
    rw [same]
    have perm : (front ++ hit :: back).Perm (hit :: (front ++ back)) := List.perm_middle
    have kept : (front ++ back).Sublist h.entries := by
      rw [stood]
      exact List.sublist_append_left _ _
    refine ⟨capacity_eq, ?_, ?_, ?_⟩
    · rw [pairwise_apart_iff perm]
      refine .cons (fun e member overlap => ?_) (bounded.apart.sublist kept)
      exact apart e (kept.mem member) (Interval.overlaps_comm.1 overlap)
    · have few := bounded.few
      have lengths := congrArg List.length stood
      rw [List.length_append, cost] at lengths
      rw [perm.length_eq, List.length_cons]
      split at lengths <;> omega
    · exact perm.subperm.trans ((List.subperm_cons hit).2 (kept.subperm.trans bounded.stem))

theorem Bounded.apply (bounded : h.Bounded capacity inserted) {op : Operation α}
    (accepts : h.Accepts op) : (h.apply op).Bounded capacity (op.inserted inserted) := by
  cases op with
  | insert hit => exact bounded.insert accepts
  | lookup address =>
    cases found : h.lookup address with
    | none =>
      simp only [RecentHits.apply, found, Option.map_none, Option.getD_none]
      exact bounded
    | some result =>
      obtain ⟨hit, after⟩ := result
      obtain ⟨-, promotes, capacity_eq⟩ := lookup_eq_some found
      have perm := promotes.perm
      simp only [RecentHits.apply, found, Option.map_some, Option.getD_some]
      exact ⟨capacity_eq.trans bounded.capacity_eq, (pairwise_apart_iff perm).2 bounded.apart,
        perm.length_eq ▸ bounded.few, perm.subperm.trans bounded.stem⟩
  | clear => exact ⟨bounded.capacity_eq, .nil, Nat.zero_le _, List.nil_subperm⟩

theorem Bounded.run (bounded : h.Bounded capacity inserted) {ops : List (Operation α)}
    (admits : h.Admits ops) :
    (h.run ops).Bounded capacity (ops.foldl Operation.inserted inserted) := by
  induction ops generalizing h inserted with
  | nil => exact bounded
  | cons op rest ih => exact ih (bounded.apply admits.1) admits.2

end Steps

structure Exact (h : RecentHits α) : Prop where
  found_iff : ∀ address,
    (∃ hit after, h.lookup address = some (hit, after)) ↔ ∃ e ∈ h.entries, address ∈ e.interval
  found : ∀ address hit after, h.lookup address = some (hit, after) →
    (∀ e ∈ h.entries, address ∈ e.interval ↔ e = hit) ∧
      Promotes hit h.entries after.entries ∧ after.capacity = h.capacity
  /-- A hit goes into the middle, and the last one goes if there are as many as there may be. -/
  taken : ∀ hit, h.capacity ≠ 0 → ∃ front back evicted, h.entries = front ++ back ++ evicted ∧
    evicted.length = (if h.entries.length = h.capacity then 1 else 0) ∧
    front.length = (front ++ back).length / 2 ∧
    h.insert hit = { h with entries := front ++ hit :: back }
  disabled : h.capacity = 0 → h.entries = [] ∧ ∀ hit, h.insert hit = h
  cleared : h.clear.entries = []

theorem Bounded.exact {h : RecentHits α} {capacity : Nat} {inserted : List (Entry α)}
    (bounded : h.Bounded capacity inserted) : h.Exact where
  found_iff address := by
    constructor
    · rintro ⟨hit, after, found⟩
      obtain ⟨holds, promotes, -⟩ := lookup_eq_some found
      exact ⟨hit, promotes.mem, holds⟩
    · rintro ⟨e, member, holds⟩
      cases found : h.lookup address with
      | none => exact absurd holds (lookup_eq_none_iff.1 found e member)
      | some result => exact ⟨result.1, result.2, rfl⟩
  found address hit after found := by
    obtain ⟨holds, promotes, capacity_eq⟩ := lookup_eq_some found
    have apart : IntervalMap.Disjoint ⟨h.entries, ⟨0⟩⟩ := bounded.apart
    refine ⟨fun e member => ⟨fun there => ?_, fun same => same ▸ holds⟩, promotes, capacity_eq⟩
    exact apart.eq_of_mem member promotes.mem there holds
  taken hit some := insert_eq hit some
  disabled none := by
    have few := bounded.few
    rw [← bounded.capacity_eq, none] at few
    exact ⟨List.length_eq_zero_iff.1 (Nat.le_zero.1 few), fun hit => if_pos none⟩
  cleared := rfl

end RecentHits

theorem Thread.registeredAt_admits {t : Thread} (wf : t.registered.WellFormed) (cached : t.Cached)
    (address : UInt64) :
    ∃ ops, t.hits.Admits ops ∧ (t.registeredAt address).2.2.hits = t.hits.run ops := by
  unfold registeredAt
  cases found : t.hits.lookup address with
  | some result =>
    refine ⟨[.lookup address], ⟨trivial, trivial⟩, ?_⟩
    simp [RecentHits.run, RecentHits.apply, found]
  | none =>
    have same : t.hits.apply (.lookup address) = t.hits := by simp [RecentHits.apply, found]
    cases covered : t.registered.covering? address with
    | none => exact ⟨[.lookup address], ⟨trivial, trivial⟩, same.symm⟩
    | some entry =>
      refine ⟨[.lookup address, .insert entry], ⟨trivial, ?_, trivial⟩, ?_⟩
      · rw [same]
        intro e member overlaps
        obtain ⟨there, holds⟩ := IntervalMap.covering?_mem covered
        have one := wf.disjoint.eq_of_overlaps (cached e member) there overlaps
        exact RecentHits.lookup_eq_none_iff.1 found e member (one ▸ holds)
      · show t.hits.insert entry = (t.hits.apply (.lookup address)).insert entry
        rw [same]

theorem Thread.classify_admits {t : Thread} (wf : t.registered.WellFormed) (cached : t.Cached)
    (globals : IntervalMap GlobalRef) (vector : VectorRef) (blocks : List StackBlock)
    (access : Access) :
    ∃ ops, t.hits.Admits ops ∧
      (t.classify globals vector blocks access).thread.hits = t.hits.run ops := by
  unfold classify
  cases ownFrame? vector access 0 blocks with
  | some own => exact ⟨[], trivial, rfl⟩
  | none => exact registeredAt_admits wf cached access.span.start

namespace RecentHits

/-- Recent hits are a bounded set of disjoint intervals, whatever is done to them, if what is inserted is
apart from what is there; and that is how classification uses them. -/
theorem run_bounded :
    (∀ {α : Type} (capacity : Nat) (ops : List (Operation α)), (empty capacity).Admits ops →
      let h := (empty capacity).run ops
      h.Bounded capacity (ops.foldl Operation.inserted []) ∧ h.Exact) ∧
    ∀ t : Thread, t.registered.WellFormed → t.Cached →
      ∀ globals vector blocks access, ∃ ops, t.hits.Admits ops ∧
        (t.classify globals vector blocks access).thread.hits = t.hits.run ops := by
  refine ⟨fun capacity ops admits => ?_, fun t wf cached => Thread.classify_admits wf cached⟩
  have bounded := (bounded_empty capacity).run admits
  exact ⟨bounded, bounded.exact⟩

def sampleFirst : Entry Nat :=
  ⟨⟨0x8000, 0x800f, by decide, by decide⟩, ⟨0⟩, 1⟩

def sampleSecond : Entry Nat :=
  ⟨⟨0x8010, 0x801f, by decide, by decide⟩, ⟨1⟩, 2⟩

def sampleThird : Entry Nat :=
  ⟨⟨0x8800, 0x880f, by decide, by decide⟩, ⟨2⟩, 3⟩

/-- Of two hits that fill the room the older one is found again, so the other goes for a third. -/
def sampleOperations : List (Operation Nat) :=
  [.insert sampleFirst, .insert sampleSecond, .lookup 0x800f, .insert sampleThird]

def sampleSearcher : Thread :=
  { Thread.initial 2 with
    registered := ⟨[⟨⟨0x8fe0, 0x8fef, by decide, by decide⟩, ⟨0⟩, ⟨⟨⟨0⟩, 0⟩, 1⟩⟩], ⟨1⟩⟩ }

theorem run_bounded_sample :
    let h := (empty 2).run sampleOperations
    h.entries = [sampleThird, sampleFirst] ∧
      h.Bounded 2 [sampleThird, sampleSecond, sampleFirst] ∧ h.Exact ∧
      ∃ ops, sampleSearcher.hits.Admits ops ∧
        (sampleSearcher.classify ∅ ⟨0⟩ [] ⟨⟨0x8fe4, 4⟩, 0, 0⟩).thread.hits =
          sampleSearcher.hits.run ops := by
  have admits : (empty 2).Admits sampleOperations := by decide
  have wf : sampleSearcher.registered.WellFormed :=
    ⟨List.pairwise_singleton _ _, List.pairwise_singleton _ _, by decide⟩
  have cached : sampleSearcher.Cached := fun e member => absurd member List.not_mem_nil
  obtain ⟨bounded, exact⟩ := run_bounded.1 2 sampleOperations admits
  exact ⟨by decide, bounded, exact, run_bounded.2 sampleSearcher wf cached _ _ _ _⟩

end RecentHits

end Overrun
