import Overrun.Block.Descriptor

/-! The canonical form of a block vector. It is determined by which blocks of the vector hold something and
are preferred to the others of their slot: those are in it, once and in order, and no others. -/

namespace Overrun.StackBlock

theorem eq_of_order_eq {a b : StackBlock} (same : order a b = .eq) : a = b := by
  simp only [order, compareLex_eq_eq, compareOn, Std.compare_eq_iff_eq] at same
  obtain ⟨base, size, spRelative, isArray, name⟩ := same
  cases a
  cases b
  simp_all

instance : Std.TransCmp order :=
  inferInstanceAs (Std.TransCmp (compareLex _ _))

instance : Std.LawfulEqCmp order where
  eq_of_compare := eq_of_order_eq

theorem order_self (a : StackBlock) : order a a = .eq :=
  Std.ReflCmp.compare_self

/-- Whether a list is in order and holds no block twice. -/
def Ordered (l : List StackBlock) : Prop :=
  l.Pairwise fun a b => order a b = .lt

section Ordered

variable {l k : List StackBlock} {a b : StackBlock}

theorem mem_insertOrdered : a ∈ insertOrdered b l ↔ a = b ∨ a ∈ l := by
  induction l with
  | nil => simp [insertOrdered]
  | cons c rest ih =>
    unfold insertOrdered
    split
    · simp
    · next same =>
      rw [eq_of_order_eq same]
      simp
    · rw [List.mem_cons, ih, or_left_comm, List.mem_cons]

theorem Ordered.insertOrdered (ordered : Ordered l) (b : StackBlock) :
    Ordered (insertOrdered b l) := by
  induction l with
  | nil => exact List.pairwise_singleton _ _
  | cons c rest ih =>
    have after : ∀ d ∈ rest, order c d = .lt := fun _ => List.rel_of_pairwise_cons ordered
    unfold StackBlock.insertOrdered
    split
    · next before =>
      refine List.Pairwise.cons (fun d member => ?_) ordered
      rcases List.mem_cons.1 member with rfl | later
      · exact before
      · exact Std.TransCmp.lt_trans before (after d later)
    · exact ordered
    · next past =>
      refine List.Pairwise.cons (fun d member => ?_) (ih ordered.of_cons)
      rcases mem_insertOrdered.1 member with rfl | old
      · exact Std.OrientedCmp.lt_of_gt past
      · exact after d old

theorem mem_foldr_insertOrdered : a ∈ l.foldr insertOrdered [] ↔ a ∈ l := by
  induction l with
  | nil => simp
  | cons b rest ih => rw [List.foldr_cons, mem_insertOrdered, ih, List.mem_cons]

theorem ordered_foldr (l : List StackBlock) : Ordered (l.foldr insertOrdered []) := by
  induction l with
  | nil => exact List.Pairwise.nil
  | cons b rest ih => exact ih.insertOrdered b

theorem Ordered.nodup (ordered : Ordered l) : l.Nodup := by
  refine List.Pairwise.imp (fun {a b} before same => ?_) ordered
  rw [same, order_self] at before
  contradiction

theorem Ordered.eq_of_mem_iff (first : Ordered l) (second : Ordered k)
    (same : ∀ b, b ∈ l ↔ b ∈ k) : l = k := by
  have perm : l.Perm k := (List.perm_ext_iff_of_nodup first.nodup second.nodup).2 same
  refine perm.eq_of_pairwise (fun a b _ _ before after => ?_) first second
  have back := Std.OrientedCmp.gt_of_lt after
  rw [before] at back
  contradiction

end Ordered

def Preferred (a b : StackBlock) : Prop :=
  b.size < a.size ∨ b.size = a.size ∧ (order a b).isLE = true

section Preferred

variable {a b c : StackBlock}

theorem preferredTo_iff : a.preferredTo b = true ↔ Preferred a b := by
  simp only [preferredTo, precedes, Preferred, Bool.or_eq_true, Bool.and_eq_true,
    decide_eq_true_eq, beq_iff_eq, eq_comm (a := a.size)]

theorem preferred_self (a : StackBlock) : Preferred a a := by
  refine .inr ⟨rfl, ?_⟩
  rw [order_self]
  rfl

theorem preferred_total (a b : StackBlock) : Preferred a b ∨ Preferred b a := by
  by_cases larger : b.size < a.size
  · exact .inl (.inl larger)
  · by_cases smaller : a.size < b.size
    · exact .inr (.inl smaller)
    · have same := UInt64.le_antisymm (UInt64.not_lt.1 larger) (UInt64.not_lt.1 smaller)
      by_cases below : (order a b).isLE = true
      · exact .inl (.inr ⟨same.symm, below⟩)
      · rw [Ordering.isLE_iff_ne_gt, Decidable.not_not, Std.OrientedCmp.gt_iff_lt] at below
        refine .inr (.inr ⟨same, ?_⟩)
        rw [below]
        rfl

theorem Preferred.trans (first : Preferred a b) (second : Preferred b c) : Preferred a c := by
  rcases first with larger | ⟨same, below⟩
  · rcases second with larger' | ⟨same', -⟩
    · exact .inl (UInt64.lt_trans larger' larger)
    · exact .inl (same' ▸ larger)
  · rcases second with larger' | ⟨same', below'⟩
    · exact .inl (same ▸ larger')
    · exact .inr ⟨same'.trans same, Std.TransCmp.isLE_trans below below'⟩

theorem Preferred.antisymm (first : Preferred a b) (second : Preferred b a) : a = b := by
  rcases first with larger | ⟨same, below⟩
  · rcases second with larger' | ⟨same', -⟩
    · exact absurd larger' (UInt64.lt_asymm larger)
    · exact absurd same' (UInt64.ne_of_lt larger).symm
  · rcases second with larger' | ⟨-, below'⟩
    · exact absurd same (UInt64.ne_of_lt larger').symm
    · exact eq_of_order_eq (Std.OrientedCmp.isLE_antisymm below below')

end Preferred

/-- Whether a block holds something and is preferred to all others of its slot that do. -/
def Chosen (blocks : List StackBlock) (b : StackBlock) : Prop :=
  b ∈ blocks ∧ 0 < b.size ∧ ∀ c ∈ blocks, 0 < c.size → c.slot = b.slot → Preferred b c

theorem Chosen.eq_of_slot {blocks : List StackBlock} {a b : StackBlock} (first : Chosen blocks a)
    (second : Chosen blocks b) (same : a.slot = b.slot) : a = b :=
  (first.2.2 b second.1 second.2.1 same.symm).antisymm (second.2.2 a first.1 first.2.1 same)

theorem exists_preferred {l : List StackBlock} (some : l ≠ []) :
    ∃ a ∈ l, ∀ c ∈ l, Preferred a c := by
  induction l with
  | nil => contradiction
  | cons b rest ih =>
    by_cases last : rest = []
    · refine ⟨b, .head rest, fun c member => ?_⟩
      rw [last, List.mem_singleton] at member
      exact member ▸ preferred_self b
    · obtain ⟨a, member, best⟩ := ih last
      rcases preferred_total a b with kept | new
      · exact ⟨a, .tail b member, List.forall_mem_cons.2 ⟨kept, best⟩⟩
      · exact ⟨b, .head rest, List.forall_mem_cons.2
          ⟨preferred_self b, fun c inside => new.trans (best c inside)⟩⟩

theorem exists_chosen {blocks : List StackBlock} {b : StackBlock} (member : b ∈ blocks)
    (solid : 0 < b.size) : ∃ a, Chosen blocks a ∧ a.slot = b.slot := by
  let rivals := blocks.filter fun c => 0 < c.size ∧ c.slot = b.slot
  have rivals_iff : ∀ c, c ∈ rivals ↔ c ∈ blocks ∧ 0 < c.size ∧ c.slot = b.slot := by
    simp [rivals]
  have some : rivals ≠ [] := List.ne_nil_of_mem ((rivals_iff b).2 ⟨member, solid, rfl⟩)
  obtain ⟨a, inside, best⟩ := exists_preferred some
  obtain ⟨there, aSolid, same⟩ := (rivals_iff a).1 inside
  refine ⟨a, ⟨there, aSolid, fun c cThere cSolid cSame => ?_⟩, same⟩
  exact best c ((rivals_iff c).2 ⟨cThere, cSolid, cSame.trans same⟩)

/-- What a vector comes to: the chosen blocks, in order and each once. -/
structure NormalForm (blocks form : List StackBlock) : Prop where
  ordered : Ordered form
  mem_iff : ∀ b, b ∈ form ↔ Chosen blocks b

theorem NormalForm.slot {blocks form : List StackBlock} (normal : NormalForm blocks form)
    {b : StackBlock} (member : b ∈ blocks) (solid : 0 < b.size) :
    ∃ a ∈ form, a.slot = b.slot ∧ ∀ c ∈ form, c.slot = b.slot → c = a := by
  obtain ⟨a, chosen, same⟩ := exists_chosen member solid
  refine ⟨a, (normal.mem_iff a).2 chosen, same, fun c inside cSame => ?_⟩
  exact ((normal.mem_iff c).1 inside).eq_of_slot chosen (cSame.trans same.symm)

theorem mem_canonical {blocks : List StackBlock} {b : StackBlock} :
    b ∈ canonical blocks ↔ Chosen blocks b := by
  simp only [canonical, mem_foldr_insertOrdered, List.mem_filter, List.all_eq_true,
    decide_eq_true_eq, Bool.or_eq_true, bne_iff_ne, preferredTo_iff, Chosen, and_assoc]
  refine and_congr_right fun _ => and_congr_right fun _ => ?_
  constructor
  · intro preferred c member solid same
    exact (preferred c ⟨member, solid⟩).resolve_left (· same)
  · rintro preferred c ⟨member, solid⟩
    by_cases same : c.slot = b.slot
    · exact .inr (preferred c member solid same)
    · exact .inl same

theorem normalForm_canonical (blocks : List StackBlock) : NormalForm blocks (canonical blocks) :=
  ⟨ordered_foldr _, fun _ => mem_canonical⟩

theorem NormalForm.eq_canonical {blocks form : List StackBlock} (normal : NormalForm blocks form) :
    form = canonical blocks :=
  normal.ordered.eq_of_mem_iff (ordered_foldr _) fun b => by rw [normal.mem_iff, mem_canonical]

theorem size_pos_of_mem_canonical {blocks : List StackBlock} {b : StackBlock}
    (member : b ∈ canonical blocks) : 0 < b.size :=
  (mem_canonical.1 member).2.1

end Overrun.StackBlock
