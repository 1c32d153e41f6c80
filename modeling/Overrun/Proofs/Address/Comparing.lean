import Mathlib.Data.Set.CoeSort
import Mathlib.Logic.Pairwise
import Mathlib.Order.Defs.Unbundled
import Overrun.Proofs.Address.Clearing

/-! Intervals that overlap compare as equal, and that is no order of all intervals: two that are apart may both
overlap a third. Among disjoint intervals it is the order of address, and along a row of those any interval
at all is first above, then level with, then below them, so that no search for it goes astray. -/

namespace Overrun.Interval

variable {a b c q : Interval} {row : List Interval} {s : Set Interval}

theorem order_swap (a b : Interval) : a.order b = (b.order a).swap := by
  cases order : b.order a with
  | lt => exact order_eq_gt_iff.2 (order_eq_lt_iff.1 order)
  | eq => exact order_eq_eq_iff.2 (overlaps_comm.1 (order_eq_eq_iff.1 order))
  | gt => exact order_eq_lt_iff.2 (order_eq_gt_iff.1 order)

section Disjoint

theorem lt_or_gt_of_not_overlaps (away : ¬a.Overlaps b) : a.order b = .lt ∨ b.order a = .lt := by
  rw [order_eq_lt_iff, order_eq_lt_iff]
  by_cases below : b.last < a.first
  · exact .inr below
  · exact .inl (below_of_not_overlaps away below)

theorem first_lt_of_order (less : a.order b = .lt) : a.first < b.first :=
  UInt64.lt_of_le_of_lt a.first_le_last (order_eq_lt_iff.1 less)

theorem order_eq_compare (apart : a = b ∨ ¬a.Overlaps b) : a.order b = compare a.first b.first := by
  rcases apart with rfl | away
  · rw [order_eq_eq_iff.2 a.overlaps_self]
    exact Std.ReflCmp.compare_self.symm
  · rcases lt_or_gt_of_not_overlaps away with below | above
    · rw [below, Std.compare_eq_lt.2 (first_lt_of_order below)]
    · rw [order_swap, above, Std.compare_eq_gt.2 (first_lt_of_order above)]
      rfl

theorem isStrictTotalOrder_order (apart : s.Pairwise fun a b => ¬a.Overlaps b) :
    IsStrictTotalOrder (↥s) fun a b => a.1.order b.1 = .lt where
  trichotomous a b notBelow notAbove := by
    by_contra different
    have away := apart a.2 b.2 fun same => different (Subtype.ext same)
    exact (lt_or_gt_of_not_overlaps away).elim notBelow notAbove
  irrefl a less := UInt64.lt_irrefl _ (first_lt_of_order less)
  trans a b c first second := by
    rw [order_eq_lt_iff] at first second ⊢
    exact below_trans first second

end Disjoint

section Rows

/-- Whether intervals in a row are disjoint and sorted by how they compare. -/
structure InOrder (row : List Interval) : Prop where
  apart : row.Pairwise fun a b => ¬a.Overlaps b
  sorted : row.Pairwise fun a b => a.order b ≠ .gt

theorem InOrder.below (inOrder : InOrder row) : row.Pairwise fun a b => a.last < b.first := by
  refine (inOrder.apart.and inOrder.sorted).imp fun {a b} both => ?_
  refine below_of_not_overlaps both.1 fun above => ?_
  exact both.2 (order_eq_gt_iff.2 above)

theorem not_lt_of_below (below : a.last < b.first) (reached : a.order q ≠ .lt) :
    b.order q ≠ .lt := by
  intro less
  rw [order_eq_lt_iff] at less
  exact reached (order_eq_lt_iff.2 (below_trans below less))

theorem gt_of_below (below : a.last < b.first) (above : a.order q = .gt) : b.order q = .gt := by
  rw [order_eq_gt_iff] at above ⊢
  exact below_trans above below

/-- Along a row the intervals that are below another come first, then those that overlap it, and last
those that are above it. -/
theorem row_eq_parts (ordered : row.Pairwise fun a b => a.last < b.first) (q : Interval) :
    row = row.filter (·.order q = .lt) ++ row.filter (·.Overlaps q) ++
      row.filter (·.order q = .gt) := by
  induction row with
  | nil => rfl
  | cons a rest ih =>
    have after : ∀ b ∈ rest, a.last < b.first := fun _ => List.rel_of_pairwise_cons ordered
    have parts := ih ordered.of_cons
    cases order : a.order q with
    | lt =>
      have apart : ¬a.Overlaps q := by simp [← order_eq_eq_iff, order]
      simpa [order, apart] using parts
    | eq =>
      have level : a.Overlaps q := order_eq_eq_iff.1 order
      have noneBelow : rest.filter (·.order q = .lt) = [] := by
        simpa using fun b member => not_lt_of_below (after b member) (by simp [order])
      rw [noneBelow] at parts
      simpa [order, level, noneBelow] using parts
    | gt =>
      have apart : ¬a.Overlaps q := by simp [← order_eq_eq_iff, order]
      have beyond : ∀ b ∈ rest, b.order q = .gt := fun b member => gt_of_below (after b member) order
      have noneBelow : rest.filter (·.order q = .lt) = [] := by
        simpa using fun b member => by simp [beyond b member]
      have noneLevel : rest.filter (·.Overlaps q) = [] := by
        simpa [← order_eq_eq_iff] using fun b member => by simp [beyond b member]
      rw [noneBelow, noneLevel] at parts
      simpa [order, apart, noneBelow, noneLevel] using parts

end Rows

structure Compared (row : List Interval) (q : Interval) : Prop where
  parts : row = row.filter (·.order q = .lt) ++ row.filter (·.order q = .eq) ++
    row.filter (·.order q = .gt)
  /-- A search comes to an end, with an entry that overlaps `q` if there is one and with none if not. -/
  searched : ∀ {α : Type} (entries : List (Entry α)), entries.map (·.interval) = row →
    (∃ found, IntervalMap.Search q entries found) ∧
    ∀ found, IntervalMap.Search q entries found →
      (found = none ↔ ∀ a ∈ row, ¬a.Overlaps q) ∧
      ∀ e, found = some e → e ∈ entries ∧ e.interval.Overlaps q

theorem InOrder.compared (inOrder : InOrder row) (q : Interval) : Compared row q where
  parts := by
    simp only [order_eq_eq_iff]
    exact row_eq_parts inOrder.below q
  searched entries intervals := by
    have ordered : entries.Pairwise fun a b => a.interval.last < b.interval.first :=
      List.pairwise_map.1 (intervals ▸ inOrder.below)
    refine ⟨IntervalMap.exists_search q entries, fun found search => ⟨?_, ?_⟩⟩
    · rw [← intervals, List.forall_mem_map]
      exact search.eq_none_iff ordered
    · rintro e rfl
      exact search.overlaps

/-- Comparing tells overlap, is turned around with its operands, is a strict total order by address of any
disjoint intervals and finds its way in any row of them that is in order. -/
theorem order_lawful :
    (∀ a b : Interval, (a.order b = .eq ↔ a.Overlaps b) ∧ a.order b = (b.order a).swap) ∧
      (∀ s : Set Interval, (s.Pairwise fun a b => ¬a.Overlaps b) →
        (IsStrictTotalOrder s fun a b => a.1.order b.1 = .lt) ∧
          ∀ a ∈ s, ∀ b ∈ s, a.order b = compare a.first b.first) ∧
      ∀ row : List Interval, InOrder row → ∀ q, Compared row q := by
  refine ⟨fun a b => ⟨order_eq_eq_iff, order_swap a b⟩, fun s apart => ⟨?_, ?_⟩, ?_⟩
  · exact isStrictTotalOrder_order apart
  · intro a aMember b bMember
    exact order_eq_compare (or_iff_not_imp_left.2 (apart aMember bMember))
  · exact fun row inOrder q => inOrder.compared q

def sampleRow : List Interval :=
  (IntervalMap.run ∅ IntervalMap.sampleBuild).1.entries.map (·.interval)

theorem order_lawful_sample :
    (∀ a ∈ sampleRow, ∀ b ∈ sampleRow, a.order b = compare a.first b.first) ∧
      sampleRow.map (·.order IntervalMap.sampleRange) = [.eq, .eq, .eq, .gt] ∧
      Compared sampleRow IntervalMap.sampleRange := by
  have inOrder : InOrder sampleRow := ⟨by decide, by decide⟩
  have apart : ∀ a ∈ sampleRow, ∀ b ∈ sampleRow, a ≠ b → ¬a.Overlaps b := by decide
  obtain ⟨-, sets, rows⟩ := order_lawful
  exact ⟨(sets {a | a ∈ sampleRow} apart).2, by decide, rows sampleRow inOrder _⟩

/-- To compare as equal is not transitive. -/
example :
    let middle : Interval := ⟨0x100f, 0x1010, by decide, by decide⟩
    Interval.order ⟨0x1000, 0x100f, by decide, by decide⟩ middle = .eq ∧
      middle.order ⟨0x1010, 0x101f, by decide, by decide⟩ = .eq ∧
      Interval.order ⟨0x1000, 0x100f, by decide, by decide⟩
        ⟨0x1010, 0x101f, by decide, by decide⟩ = .lt := by decide

end Overrun.Interval
