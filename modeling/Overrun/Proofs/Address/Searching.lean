import Overrun.Proofs.Address.Disjoint

/-! Searches of a map that are led by how intervals compare, whichever entries they compare with. They end
with an interval that overlaps the range just when a lookup does, and at an address with the same entry. -/

namespace Overrun

namespace Interval

variable {a b : Interval}

theorem order_eq_lt_iff : a.order b = .lt ↔ a.last < b.first := by
  unfold order
  grind

theorem order_eq_gt_iff : a.order b = .gt ↔ b.last < a.first := by
  have ordered := a.first_le_last
  have below := b.first_le_last
  unfold order
  grind

theorem order_eq_eq_iff : a.order b = .eq ↔ a.Overlaps b := by
  unfold order Overlaps
  grind

theorem overlaps_single {address : UInt64} : a.Overlaps (single address) ↔ address ∈ a :=
  mem_iff.symm

end Interval

namespace IntervalMap

variable {α : Type}

/-- Whether a search for `range` among entries in a row may end with `found`. It compares the range with
one of them, whichever that is, and goes on among those on the side that the comparison points to. -/
inductive Search (range : Interval) : List (Entry α) → Option (Entry α) → Prop where
  | nothing : Search range [] none
  | here (before after : List (Entry α)) {e : Entry α} (same : range.order e.interval = .eq) :
      Search range (before ++ e :: after) (some e)
  | before {before : List (Entry α)} (after : List (Entry α)) {e : Entry α} {found : Option (Entry α)}
      (less : range.order e.interval = .lt) (rest : Search range before found) :
      Search range (before ++ e :: after) found
  | after (before : List (Entry α)) {after : List (Entry α)} {e : Entry α} {found : Option (Entry α)}
      (greater : range.order e.interval = .gt) (rest : Search range after found) :
      Search range (before ++ e :: after) found

section Search

variable {range : Interval} {entries : List (Entry α)} {e : Entry α}

theorem exists_search (range : Interval) (entries : List (Entry α)) :
    ∃ found, Search range entries found := by
  induction entries with
  | nil => exact ⟨none, .nothing⟩
  | cons e rest ih =>
    cases order : range.order e.interval with
    | lt => exact ⟨none, .before rest order .nothing⟩
    | eq => exact ⟨some e, .here [] rest order⟩
    | gt =>
      obtain ⟨found, later⟩ := ih
      exact ⟨found, .after [] order later⟩

theorem Search.overlaps (search : Search range entries (some e)) :
    e ∈ entries ∧ e.interval.Overlaps range := by
  generalize ends : some e = found at search
  induction search with
  | nothing => contradiction
  | here before after same =>
    cases ends
    exact ⟨by simp, Interval.overlaps_comm.1 (Interval.order_eq_eq_iff.1 same)⟩
  | before after less rest ih =>
    obtain ⟨member, overlaps⟩ := ih ends
    exact ⟨List.mem_append_left _ member, overlaps⟩
  | after before greater rest ih =>
    obtain ⟨member, overlaps⟩ := ih ends
    exact ⟨List.mem_append_right _ (.tail _ member), overlaps⟩

/-- A search passes nothing over: all that lies on the other side is apart from the range. -/
theorem Search.none_overlaps (search : Search range entries none)
    (ordered : entries.Pairwise fun a b => a.interval.last < b.interval.first) :
    ∀ e ∈ entries, ¬e.interval.Overlaps range := by
  generalize ends : none = found at search
  induction search with
  | nothing => simp
  | here => contradiction
  | @before before after pivot found less rest ih =>
    obtain ⟨first, second, across⟩ := List.pairwise_append.1 ordered
    have below := Interval.order_eq_lt_iff.1 less
    intro e member
    rcases List.mem_append.1 member with early | late
    · exact ih first ends e early
    · have beyond : range.last < e.interval.first := by
        rcases List.mem_cons.1 late with rfl | later
        · exact below
        · exact Interval.below_trans below (List.rel_of_pairwise_cons second later)
      exact fun overlap => Interval.not_overlaps_of_below beyond (Interval.overlaps_comm.1 overlap)
  | @after before after pivot found greater rest ih =>
    obtain ⟨first, second, across⟩ := List.pairwise_append.1 ordered
    have above := Interval.order_eq_gt_iff.1 greater
    intro e member
    rcases List.mem_append.1 member with early | late
    · exact Interval.not_overlaps_of_below (Interval.below_trans (across e early pivot (.head _)) above)
    · rcases List.mem_cons.1 late with rfl | later
      · exact Interval.not_overlaps_of_below above
      · exact ih second.of_cons ends e later

theorem Search.eq_none_iff {found : Option (Entry α)} (search : Search range entries found)
    (ordered : entries.Pairwise fun a b => a.interval.last < b.interval.first) :
    found = none ↔ ∀ e ∈ entries, ¬e.interval.Overlaps range := by
  constructor
  · rintro rfl
    exact search.none_overlaps ordered
  · intro apart
    cases found with
    | none => rfl
    | some e =>
      obtain ⟨member, overlaps⟩ := search.overlaps
      exact absurd overlaps (apart e member)

variable {m : IntervalMap α} {found : Option (Entry α)}

/-- Of several entries that overlap the range, a search may end with any one. -/
theorem WellFormed.search_overlapping? (wf : m.WellFormed) (search : Search range m.entries found) :
    (found = none ↔ m.overlapping? range = none) ∧
      ∀ e, found = some e → e ∈ m.entries ∧ e.interval.Overlaps range := by
  constructor
  · rw [search.eq_none_iff wf.ordered, overlapping?_eq_none_iff]
  · rintro e rfl
    exact search.overlaps

theorem WellFormed.search_covering? (wf : m.WellFormed) {address : UInt64} :
    Search (.single address) m.entries found ↔ found = m.covering? address := by
  have led : ∀ found, Search (.single address) m.entries found → found = m.covering? address := by
    intro found search
    cases found with
    | none =>
      refine (covering?_eq_none_iff.2 fun e member holds => ?_).symm
      exact search.none_overlaps wf.ordered e member (Interval.overlaps_single.2 holds)
    | some e =>
      obtain ⟨member, overlaps⟩ := search.overlaps
      exact (wf.disjoint.covering?_eq_some member (Interval.overlaps_single.1 overlaps)).symm
  constructor
  · exact led found
  · rintro rfl
    obtain ⟨other, search⟩ := exists_search (.single address) m.entries
    rw [← led other search]
    exact search

end Search

end IntervalMap

end Overrun
