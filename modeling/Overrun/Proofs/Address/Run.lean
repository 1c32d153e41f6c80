import Overrun.Proofs.Address.Searching

/-! Interval maps under any sequence of insertions, removals and searches. At all times such a map is a set
of disjoint intervals in order of address: an interval is taken in just when it overlaps none that is
there, what is found at an address is the one entry there, and taking it out leaves all others. -/

namespace Overrun.IntervalMap

inductive Operation (α : Type) where
  | insert (interval : Interval) (value : α)
  | takeAt (address : UInt64)
  | takeRange (range : Interval)
  | find (address : UInt64)

variable {α : Type}

/-- The map after an operation. One that is refused, or finds nothing, leaves it as it was. -/
def apply (m : IntervalMap α) : Operation α → IntervalMap α
  | .insert iv value => ((m.insert iv value).toOption.map Prod.snd).getD m
  | .takeAt address => ((m.takeAt? address).map Prod.snd).getD m
  | .takeRange range => (m.takeRange range).2
  | .find _ => m

def issued? (m : IntervalMap α) : Operation α → Option NodeId
  | .insert iv value => (m.insert iv value).toOption.map Prod.fst
  | .takeAt _ | .takeRange _ | .find _ => none

def run (m : IntervalMap α) : List (Operation α) → IntervalMap α × List NodeId
  | [] => (m, [])
  | op :: rest =>
    let (last, later) := (m.apply op).run rest
    (last, (m.issued? op).toList ++ later)

section Steps

variable {m after : IntervalMap α} {iv : Interval} {value : α} {id : NodeId} {e : Entry α}
  {address : UInt64} {overlap : Overlap}

theorem insert_eq_ok_iff :
    m.insert iv value = .ok (id, after) ↔
      (∀ e ∈ m.entries, ¬e.interval.Overlaps iv) ∧ id = m.nextId ∧
        after = ⟨place ⟨iv, m.nextId, value⟩ m.entries, ⟨m.nextId.index + 1⟩⟩ := by
  constructor
  · exact insert_eq_ok
  · rintro ⟨free, rfl, rfl⟩
    unfold insert
    rw [overlapping?_eq_none_iff.2 free]

theorem insert_eq_error (refused : m.insert iv value = .error overlap) :
    overlap.new = iv ∧ ∃ e ∈ m.entries, e.interval = overlap.existing ∧ e.interval.Overlaps iv := by
  unfold insert at refused
  split at refused
  · next e found =>
    cases refused
    have overlaps := List.find?_some found
    exact ⟨rfl, e, List.mem_of_find?_eq_some found, rfl, of_decide_eq_true overlaps⟩
  · contradiction

theorem takeAt?_fst (m : IntervalMap α) (address : UInt64) :
    (m.takeAt? address).map Prod.fst = m.covering? address := by
  simp [takeAt?, Function.comp_def]

theorem WellFormed.covering?_eq_some_iff (wf : m.WellFormed) :
    m.covering? address = some e ↔ e ∈ m.entries ∧ address ∈ e.interval :=
  ⟨covering?_mem, fun found => wf.disjoint.covering?_eq_some found.1 found.2⟩

theorem WellFormed.takeAt?_ok (wf : m.WellFormed) (taken : m.takeAt? address = some (e, after)) :
    m.entries.Perm (e :: after.entries) ∧ after.nextId = m.nextId ∧ after.WellFormed := by
  have covered : m.covering? address = some e := by
    rw [← takeAt?_fst, taken]
    rfl
  obtain ⟨member, holds⟩ := covering?_mem covered
  rw [wf.takeAt?_eq_some member holds] at taken
  cases taken
  exact ⟨wf.perm_cons_filter member holds, rfl, wf.sublist List.filter_sublist⟩

theorem WellFormed.apply (wf : m.WellFormed) (op : Operation α) :
    (m.apply op).WellFormed ∧ m.nextId.index ≤ (m.apply op).nextId.index ∧
      ∀ id ∈ m.issued? op, id.index < (m.apply op).nextId.index := by
  cases op with
  | insert iv value =>
    cases inserted : m.insert iv value with
    | error overlap => simpa [IntervalMap.apply, issued?, inserted, Except.toOption] using wf
    | ok result =>
      obtain ⟨id, after⟩ := result
      have afterWf := wf.insert inserted
      obtain ⟨-, rfl, rfl⟩ := insert_eq_ok inserted
      simpa [IntervalMap.apply, issued?, inserted, Except.toOption] using afterWf
  | takeAt address =>
    cases taken : m.takeAt? address with
    | none => simpa [IntervalMap.apply, issued?, taken] using wf
    | some result =>
      obtain ⟨e, after⟩ := result
      obtain ⟨-, counted, afterWf⟩ := wf.takeAt?_ok taken
      simpa [IntervalMap.apply, issued?, taken, counted] using afterWf
  | takeRange range =>
    exact ⟨wf.takeRange range, Nat.le_refl _, fun _ absurd => by contradiction⟩
  | find address => exact ⟨wf, Nat.le_refl _, fun _ absurd => by contradiction⟩

theorem WellFormed.run (wf : m.WellFormed) (ops : List (Operation α)) :
    (m.run ops).1.WellFormed ∧ m.nextId.index ≤ (m.run ops).1.nextId.index ∧
      ∀ id ∈ (m.run ops).2, id.index < (m.run ops).1.nextId.index := by
  induction ops generalizing m with
  | nil => exact ⟨wf, Nat.le_refl _, fun _ absurd => by contradiction⟩
  | cons op rest ih =>
    obtain ⟨nextWf, counted, below⟩ := wf.apply op
    obtain ⟨lastWf, later, laterBelow⟩ := ih nextWf
    refine ⟨lastWf, Nat.le_trans counted later, fun id member => ?_⟩
    rcases List.mem_append.1 member with early | late
    · exact Nat.lt_of_lt_of_le (below id (Option.mem_toList.1 early)) later
    · exact laterBelow id late

end Steps

/-- What it means for a map to be a set of disjoint intervals, where `issued` are the numbers that have
been handed out so far. -/
structure Exact (m : IntervalMap α) (issued : List NodeId) : Prop where
  ordered : m.entries.Pairwise fun a b =>
    a.interval.first < b.interval.first ∧ ¬a.interval.Overlaps b.interval ∧ a.id ≠ b.id
  accepted_iff : ∀ iv value,
    (∃ id after, m.insert iv value = .ok (id, after)) ↔ ∀ e ∈ m.entries, ¬e.interval.Overlaps iv
  added : ∀ iv value id after, m.insert iv value = .ok (id, after) →
    id ∉ issued ∧ after.entries.Perm (⟨iv, id, value⟩ :: m.entries)
  refused : ∀ iv value overlap, m.insert iv value = .error overlap →
    overlap.new = iv ∧ (∃ e ∈ m.entries, e.interval = overlap.existing ∧ e.interval.Overlaps iv) ∧
      m.apply (.insert iv value) = m
  found_iff : ∀ address e,
    m.covering? address = some e ↔ e ∈ m.entries ∧ address ∈ e.interval
  taken_iff : ∀ address e,
    (∃ after, m.takeAt? address = some (e, after)) ↔ m.covering? address = some e
  removed : ∀ address e after, m.takeAt? address = some (e, after) →
    m.entries.Perm (e :: after.entries) ∧ after.nextId = m.nextId
  /-- What a search that is led by comparisons ends with, of several intervals that overlap any one. -/
  searched : ∀ range, (∃ found, Search range m.entries found) ∧
    ∀ found, Search range m.entries found →
      (found = none ↔ m.overlapping? range = none) ∧
      ∀ e, found = some e → e ∈ m.entries ∧ e.interval.Overlaps range
  probed_iff : ∀ address found,
    Search (.single address) m.entries found ↔ found = m.covering? address

variable {m : IntervalMap α}

theorem WellFormed.exact (wf : m.WellFormed) {issued : List NodeId}
    (ahead : ∀ id ∈ issued, id.index < m.nextId.index) : m.Exact issued where
  ordered := by
    refine (wf.ordered.and wf.numbered).imp fun {a b} apart => ⟨?_, ?_, apart.2⟩
    · have within := a.interval.first_le_last
      have below := apart.1
      grind
    · exact Interval.not_overlaps_of_below apart.1
  accepted_iff iv value := by
    constructor
    · rintro ⟨id, after, inserted⟩
      exact (insert_eq_ok inserted).1
    · intro free
      exact ⟨_, _, insert_eq_ok_iff.2 ⟨free, rfl, rfl⟩⟩
  added iv value id after inserted := by
    obtain ⟨-, rfl, rfl⟩ := insert_eq_ok inserted
    exact ⟨fun old => Nat.lt_irrefl _ (ahead _ old), perm_place _ _⟩
  refused iv value overlap refused := by
    obtain ⟨same, existing⟩ := insert_eq_error refused
    refine ⟨same, existing, ?_⟩
    simp [IntervalMap.apply, refused, Except.toOption]
  found_iff address e := wf.covering?_eq_some_iff
  taken_iff address e := by
    rw [← takeAt?_fst]
    simp
  removed address e after taken := by
    obtain ⟨rest, counted, -⟩ := wf.takeAt?_ok taken
    exact ⟨rest, counted⟩
  searched range := ⟨exists_search range m.entries, fun _ => wf.search_overlapping?⟩
  probed_iff _ _ := wf.search_covering?

/-- However it was built, a map is a set of disjoint intervals. -/
theorem run_exact (ops : List (Operation α)) :
    (run ∅ ops).1.Exact (run (∅ : IntervalMap α) ops).2 := by
  obtain ⟨wf, -, ahead⟩ := wellFormed_empty.run ops
  exact wf.exact ahead

end Overrun.IntervalMap
