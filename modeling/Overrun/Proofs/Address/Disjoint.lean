import Overrun.Address.IntervalMap

/-! The intervals of a map are disjoint and in order of address, and no two of its entries share a
number. So there is one entry at an address at most, and an entry is known by its number, by its
interval or by any address in it. -/

namespace Overrun

/-- Whether a span ends inside the address space, or with it. -/
def Span.Fits (s : Span) : Prop :=
  s.stop ≤ 0x10000000000000000

instance (s : Span) : Decidable s.Fits :=
  inferInstanceAs (Decidable (_ ≤ _))

namespace Interval

theorem overlaps_of_mem {a b : Interval} {address : UInt64} (first : address ∈ a)
    (second : address ∈ b) : a.Overlaps b := by
  rw [mem_iff] at first second
  unfold Overlaps
  grind

theorem not_overlaps_of_below {a b : Interval} (below : a.last < b.first) : ¬a.Overlaps b := by
  unfold Overlaps
  grind

theorem below_of_not_overlaps {a b : Interval} (apart : ¬a.Overlaps b)
    (notBelow : ¬b.last < a.first) : a.last < b.first := by
  unfold Overlaps at apart
  grind

theorem below_trans {a b c : Interval} (first : a.last < b.first) (second : b.last < c.first) :
    a.last < c.first := by
  have ordered := b.first_le_last
  grind

theorem eq_of_span_eq {a b : Interval} (same : a.span = b.span) : a = b := by
  have firsts : a.first = b.first := congrArg Span.start same
  have sizes : a.size = b.size := congrArg Span.size same
  have lengths := congrArg UInt64.toNat sizes
  rw [toNat_size, toNat_size] at lengths
  have starts := congrArg UInt64.toNat firsts
  have aOrdered := a.toNat_first_le
  have bOrdered := b.toNat_first_le
  have lasts : a.last = b.last := UInt64.toNat_inj.1 (by omega)
  cases a
  cases b
  cases firsts
  cases lasts
  rfl

theorem start_mem_of_contains {iv : Interval} {s : Span} (holds : iv.contains s)
    (nonempty : s.size ≠ 0) : s.start ∈ iv := by
  have inside := Span.contains_iff.1 holds
  have positive : s.size.toNat ≠ 0 := fun none => nonempty (UInt64.toNat_inj.1 none)
  have stops := inside.2
  rw [stop_span] at stops
  unfold Span.stop at stops
  constructor
  · exact UInt64.le_iff_toNat_le.2 inside.1
  · rw [UInt64.le_iff_toNat_le]
    omega

theorem ofSize?_eq_some {start size : UInt64} {iv : Interval}
    (fits : ofSize? start size = some iv) : iv.first = start ∧ iv.size = size := by
  unfold ofSize? at fits
  split at fits
  · cases fits
    refine ⟨rfl, ?_⟩
    change start + (size - 1) - start + 1 = size
    rw [UInt64.add_comm start, UInt64.add_sub_cancel, UInt64.sub_add_cancel]
  · contradiction

theorem ofSize?_eq_none_iff {start size : UInt64} (solid : 0 < size) :
    ofSize? start size = none ↔ ¬(Span.mk start size).Fits := by
  have positive : 0 < size.toNat := UInt64.lt_iff_toNat_lt.1 solid
  have nonzero : size ≠ 0 := (UInt64.ne_of_lt solid).symm
  have startBound := start.toNat_lt
  have sizeBound := size.toNat_lt
  have less : (size - 1).toNat = size.toNat - 1 :=
    UInt64.toNat_sub_of_le _ _ (UInt64.le_iff_toNat_le.2 positive)
  have whole : start ≤ start + (size - 1) ↔ start.toNat + size.toNat ≤ 0x10000000000000000 := by
    rw [UInt64.le_iff_toNat_le, UInt64.toNat_add, less]
    omega
  unfold ofSize? Span.Fits Span.stop
  simp [nonzero, whole]

end Interval

namespace IntervalMap

variable {α : Type}

structure WellFormed (m : IntervalMap α) : Prop where
  ordered : m.entries.Pairwise fun a b => a.interval.last < b.interval.first
  numbered : m.entries.Pairwise fun a b => a.id ≠ b.id
  fresh : ∀ e ∈ m.entries, e.id.index < m.nextId.index

theorem wellFormed_empty : (∅ : IntervalMap α).WellFormed :=
  ⟨List.Pairwise.nil, List.Pairwise.nil, fun _ member => absurd member List.not_mem_nil⟩

private theorem eq_of_pairwise_not {β : Type} (related : β → β → Prop) {l : List β}
    (symmetric : ∀ a b, related a b → related b a) (apart : l.Pairwise fun a b => ¬related a b)
    {a b : β} (first : a ∈ l) (second : b ∈ l) (together : related a b) : a = b := by
  have forward : l.Pairwise fun a b => related a b → a = b :=
    apart.imp fun away near => absurd near away
  have backward : l.Pairwise (flip fun a b => related a b → a = b) :=
    apart.imp fun away near => absurd (symmetric _ _ near) away
  exact List.Pairwise.forall_of_forall_of_flip (fun _ _ _ => rfl) forward backward
    first second together

private theorem eraseP_eq_filter {β : Type} {p : β → Bool} {l : List β}
    (single : l.Pairwise fun a b => ¬(p a = true ∧ p b = true)) :
    l.eraseP p = l.filter fun a => !p a := by
  induction l with
  | nil => rfl
  | cons a rest ih =>
    have later : ∀ b ∈ rest, ¬(p a = true ∧ p b = true) :=
      fun _ => List.rel_of_pairwise_cons single
    cases passes : p a with
    | false => simp [passes, ih single.of_cons]
    | true =>
      have others : ∀ b ∈ rest, p b = false := fun b member => by
        have away := later b member
        simpa [passes] using away
      simp only [List.eraseP_cons, passes, cond_true, List.filter_cons, Bool.not_true,
        Bool.false_eq_true, ↓reduceIte]
      exact (List.filter_eq_self.2 fun b member => by simp [others b member]).symm

theorem perm_place (entry : Entry α) (entries : List (Entry α)) :
    (place entry entries).Perm (entry :: entries) := by
  induction entries with
  | nil => exact List.Perm.refl _
  | cons e rest ih =>
    unfold place
    split
    · exact (ih.cons e).trans (List.Perm.swap entry e rest)
    · exact List.Perm.refl _

theorem mem_place {entry e : Entry α} {entries : List (Entry α)} :
    e ∈ place entry entries ↔ e = entry ∨ e ∈ entries := by
  rw [(perm_place entry entries).mem_iff, List.mem_cons]

theorem ordered_place {entry : Entry α} {entries : List (Entry α)}
    (ordered : entries.Pairwise fun a b => a.interval.last < b.interval.first)
    (apart : ∀ e ∈ entries, ¬e.interval.Overlaps entry.interval) :
    (place entry entries).Pairwise fun a b => a.interval.last < b.interval.first := by
  induction entries with
  | nil => exact List.pairwise_singleton _ _
  | cons e rest ih =>
    have after : ∀ x ∈ rest, e.interval.last < x.interval.first :=
      fun _ => List.rel_of_pairwise_cons ordered
    unfold place
    split
    · next below =>
      refine List.Pairwise.cons ?_ (ih ordered.of_cons fun x member => apart x (.tail e member))
      intro x member
      rcases mem_place.1 member with rfl | old
      · exact below
      · exact after x old
    · next notBelow =>
      have before : entry.interval.last < e.interval.first :=
        Interval.below_of_not_overlaps
          (fun overlap => apart e (.head rest) (Interval.overlaps_comm.1 overlap)) notBelow
      refine List.Pairwise.cons ?_ ordered
      intro x member
      rcases List.mem_cons.1 member with rfl | later
      · exact before
      · exact Interval.below_trans before (after x later)

theorem covering?_mem {m : IntervalMap α} {address : UInt64} {e : Entry α}
    (found : m.covering? address = some e) : e ∈ m.entries ∧ address ∈ e.interval := by
  unfold covering? at found
  have holds := List.find?_some found
  exact ⟨List.mem_of_find?_eq_some found, of_decide_eq_true holds⟩

theorem covering?_eq_none_iff {m : IntervalMap α} {address : UInt64} :
    m.covering? address = none ↔ ∀ e ∈ m.entries, address ∉ e.interval := by
  simp [covering?]

theorem overlapping?_eq_none_iff {m : IntervalMap α} {iv : Interval} :
    m.overlapping? iv = none ↔ ∀ e ∈ m.entries, ¬e.interval.Overlaps iv := by
  simp [overlapping?]

theorem hasNode_iff {m : IntervalMap α} {id : NodeId} :
    m.hasNode id = true ↔ ∃ e ∈ m.entries, e.id = id := by
  simp [hasNode]

theorem insert_eq_ok {m after : IntervalMap α} {iv : Interval} {value : α} {id : NodeId}
    (inserted : m.insert iv value = .ok (id, after)) :
    (∀ e ∈ m.entries, ¬e.interval.Overlaps iv) ∧ id = m.nextId ∧
      after = ⟨place ⟨iv, m.nextId, value⟩ m.entries, ⟨m.nextId.index + 1⟩⟩ := by
  unfold insert at inserted
  split at inserted
  · contradiction
  · next free =>
    cases inserted
    exact ⟨overlapping?_eq_none_iff.1 free, rfl, rfl⟩

def Disjoint (m : IntervalMap α) : Prop :=
  m.entries.Pairwise fun a b => ¬a.interval.Overlaps b.interval

section Entries

variable {m : IntervalMap α} {a b e : Entry α}

theorem Disjoint.eq_of_overlaps (apart : m.Disjoint) (first : a ∈ m.entries)
    (second : b ∈ m.entries) (overlap : a.interval.Overlaps b.interval) : a = b :=
  eq_of_pairwise_not (fun a b : Entry α => a.interval.Overlaps b.interval)
    (fun _ _ => Interval.overlaps_comm.1) apart first second overlap

theorem Disjoint.eq_of_mem (apart : m.Disjoint) {address : UInt64} (first : a ∈ m.entries)
    (second : b ∈ m.entries) (inFirst : address ∈ a.interval) (inSecond : address ∈ b.interval) :
    a = b :=
  apart.eq_of_overlaps first second (Interval.overlaps_of_mem inFirst inSecond)

theorem Disjoint.covering?_eq_some (apart : m.Disjoint) {address : UInt64}
    (member : e ∈ m.entries) (holds : address ∈ e.interval) : m.covering? address = some e := by
  cases found : m.covering? address with
  | none => exact absurd holds (covering?_eq_none_iff.1 found e member)
  | some other =>
    obtain ⟨otherMember, otherHolds⟩ := covering?_mem found
    rw [apart.eq_of_mem otherMember member otherHolds holds]

theorem WellFormed.disjoint (wf : m.WellFormed) : m.Disjoint :=
  wf.ordered.imp Interval.not_overlaps_of_below

end Entries

namespace WellFormed

variable {m : IntervalMap α} {a b e : Entry α}

theorem nodup (wf : m.WellFormed) : m.entries.Nodup :=
  wf.numbered.imp fun different same => different (congrArg Entry.id same)

theorem eq_of_id (wf : m.WellFormed) (first : a ∈ m.entries) (second : b ∈ m.entries)
    (same : a.id = b.id) : a = b :=
  eq_of_pairwise_not (fun a b : Entry α => a.id = b.id) (fun _ _ => Eq.symm) wf.numbered
    first second same

theorem eq_of_span (wf : m.WellFormed) (first : a ∈ m.entries) (second : b ∈ m.entries)
    (same : a.interval.span = b.interval.span) : a = b := by
  have intervals := Interval.eq_of_span_eq same
  exact wf.disjoint.eq_of_overlaps first second (intervals ▸ Interval.overlaps_self _)

theorem insert {after : IntervalMap α} {iv : Interval} {value : α} {id : NodeId}
    (wf : m.WellFormed) (inserted : m.insert iv value = .ok (id, after)) : after.WellFormed := by
  obtain ⟨apart, rfl, rfl⟩ := insert_eq_ok inserted
  have perm := perm_place ⟨iv, m.nextId, value⟩ m.entries
  refine ⟨ordered_place wf.ordered apart, ?_, ?_⟩
  · rw [perm.pairwise_iff fun different => Ne.symm different]
    refine List.Pairwise.cons (fun e member same => ?_) wf.numbered
    have below := wf.fresh e member
    rw [← same] at below
    exact absurd below (Nat.lt_irrefl _)
  · intro e member
    rcases mem_place.1 member with rfl | old
    · exact Nat.lt_succ_self _
    · exact Nat.lt_succ_of_lt (wf.fresh e old)

theorem sublist {entries : List (Entry α)} (wf : m.WellFormed)
    (fewer : entries.Sublist m.entries) : IntervalMap.WellFormed ⟨entries, m.nextId⟩ :=
  ⟨wf.ordered.sublist fewer, wf.numbered.sublist fewer,
    fun e member => wf.fresh e (fewer.mem member)⟩

theorem eraseP_mem (wf : m.WellFormed) (address : UInt64) :
    m.entries.eraseP (fun e => address ∈ e.interval) =
      m.entries.filter fun e => address ∉ e.interval := by
  have single : m.entries.Pairwise fun a b =>
      ¬(decide (address ∈ a.interval) = true ∧ decide (address ∈ b.interval) = true) := by
    apply wf.ordered.imp
    intro a b below both
    exact Interval.not_overlaps_of_below below (Interval.overlaps_of_mem
      (of_decide_eq_true both.1) (of_decide_eq_true both.2))
  simp only [eraseP_eq_filter single, decide_not]

theorem takeAt?_eq_some (wf : m.WellFormed) {address : UInt64} (member : e ∈ m.entries)
    (holds : address ∈ e.interval) :
    m.takeAt? address =
      some (e, { m with entries := m.entries.filter fun e => address ∉ e.interval }) := by
  unfold takeAt?
  rw [wf.disjoint.covering?_eq_some member holds, Option.map_some, wf.eraseP_mem]

theorem perm_cons_filter (wf : m.WellFormed) {address : UInt64} (member : e ∈ m.entries)
    (holds : address ∈ e.interval) :
    m.entries.Perm (e :: m.entries.filter fun e => address ∉ e.interval) := by
  obtain ⟨x, before, after, -, there, split, erased⟩ :=
    List.exists_of_eraseP (p := fun e : Entry α => address ∈ e.interval) member
      (decide_eq_true holds)
  have xMember : x ∈ m.entries := by
    rw [split]
    exact List.mem_append_right before (.head after)
  have same := wf.disjoint.eq_of_mem xMember member (of_decide_eq_true there) holds
  rw [← wf.eraseP_mem, erased, ← same, split]
  exact List.perm_middle

theorem takeRange (wf : m.WellFormed) (range : Interval) : (m.takeRange range).2.WellFormed :=
  wf.sublist List.filter_sublist

end WellFormed

end IntervalMap

end Overrun
