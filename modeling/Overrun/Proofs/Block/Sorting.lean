import Mathlib.Data.List.Destutter
import Overrun.Proofs.Block.Growing

/-! Block vectors brought to canonical form by sorting: blocks are grouped by slot, the preferred one of each
slot first, the first of each group is kept, and what is kept is put in order. However the blocks of a
vector were given, and whatever was given beside them that makes no difference, the same is stored. -/

namespace Overrun

namespace StackBlock

def slotOrder : StackBlock → StackBlock → Ordering :=
  compareLex (compareOn base) (compareOn spRelative)

/-- By slot. Within a slot larger blocks come first, and equally large ones are in order. -/
def groupOrder : StackBlock → StackBlock → Ordering :=
  compareLex slotOrder (compareLex (fun a b => compareOn size b a) order)

instance : Std.TransCmp slotOrder :=
  inferInstanceAs (Std.TransCmp (compareLex _ _))

instance : Std.TransCmp fun a b => compareOn size b a :=
  Std.TransCmp.opposite

instance : Std.TransCmp groupOrder :=
  inferInstanceAs (Std.TransCmp (compareLex slotOrder (compareLex _ order)))

def Apart (a b : StackBlock) : Prop :=
  a.slot ≠ b.slot

instance : DecidableRel Apart :=
  fun a b => inferInstanceAs (Decidable (a.slot ≠ b.slot))

/-- The blocks that hold something are sorted by group, all but the first of each run of one slot are
dropped, and the rest is sorted. -/
def sortedForm (blocks : List StackBlock) : List StackBlock :=
  let solid := blocks.filter fun b => 0 < b.size
  let grouped := solid.mergeSort fun a b => (groupOrder a b).isLE
  (grouped.destutter Apart).mergeSort precedes

variable {a b c : StackBlock} {l : List StackBlock}
  {blocks other more : List StackBlock}

theorem slotOrder_eq_iff : slotOrder a b = .eq ↔ a.slot = b.slot := by
  simp only [slotOrder, compareLex_eq_eq, compareOn, Std.compare_eq_iff_eq, slot, Prod.mk.injEq]

theorem slotOrder_of_groupOrder (before : (groupOrder a b).isLE = true) :
    (slotOrder a b).isLE = true :=
  (Ordering.isLE_then_iff_and.1 before).1

theorem slot_between (first : (groupOrder a c).isLE = true) (second : (groupOrder c b).isLE = true)
    (same : a.slot = b.slot) : a.slot = c.slot := by
  have back : (slotOrder c a).isLE = true := by
    refine Std.TransCmp.isLE_trans (slotOrder_of_groupOrder second) ?_
    rw [slotOrder_eq_iff.2 same.symm]
    rfl
  exact slotOrder_eq_iff.1 (Std.OrientedCmp.isLE_antisymm (slotOrder_of_groupOrder first) back)

theorem preferred_of_groupOrder (before : (groupOrder a b).isLE = true) (same : a.slot = b.slot) :
    Preferred a b := by
  have within := (Ordering.isLE_then_iff_and.1 before).2
  rw [slotOrder_eq_iff.2 same] at within
  obtain ⟨sizes, rest⟩ := Ordering.isLE_then_iff_and.1 (within.resolve_left (by decide))
  have larger : b.size ≤ a.size := Std.isLE_compare.1 sizes
  rcases rest with strict | ordered
  · exact .inl (Std.compare_eq_lt.1 strict)
  · by_cases equal : b.size = a.size
    · exact .inr ⟨equal, ordered⟩
    · exact .inl (UInt64.lt_of_le_of_ne larger equal)

def Grouped (l : List StackBlock) : Prop :=
  l.Pairwise fun a b => (groupOrder a b).isLE = true

theorem pairwise_sorted (cmp : StackBlock → StackBlock → Ordering) [Std.TransCmp cmp]
    (l : List StackBlock) :
    (l.mergeSort fun a b => (cmp a b).isLE).Pairwise fun a b => (cmp a b).isLE = true := by
  apply List.pairwise_mergeSort
  · exact fun _ _ _ => Std.TransCmp.isLE_trans
  · intro a b
    rw [Bool.or_eq_true, Decidable.or_iff_not_imp_left]
    intro past
    rw [Ordering.isLE_iff_ne_gt, Decidable.not_not, Std.OrientedCmp.gt_iff_lt] at past
    rw [past]
    rfl

theorem Grouped.rest (grouped : Grouped (a :: l)) : Grouped l :=
  List.Pairwise.of_cons grouped

theorem Grouped.first (grouped : Grouped (a :: l)) (member : b ∈ a :: l) (same : b.slot = a.slot) :
    Preferred a b := by
  rcases List.mem_cons.1 member with rfl | later
  · exact preferred_self b
  · exact preferred_of_groupOrder (List.rel_of_pairwise_cons grouped later) same.symm

theorem Grouped.apart (grouped : Grouped (a :: c :: l)) (new : Apart a c) (member : b ∈ c :: l) :
    Apart a b := by
  intro same
  rcases List.mem_cons.1 member with rfl | later
  · exact new same
  · have before : (groupOrder a c).isLE = true := List.rel_of_pairwise_cons grouped (.head l)
    exact new (slot_between before (List.rel_of_pairwise_cons grouped.rest later) same)

theorem Grouped.skip (grouped : Grouped (a :: c :: l)) : Grouped (a :: l) :=
  grouped.sublist (.cons_cons a (List.sublist_cons_self c l))

/-- What is kept of grouped blocks, where `a` is the one kept before them: of each later slot the one that
is preferred to the others. -/
theorem mem_destutter' (grouped : Grouped (a :: l)) :
    b ∈ l.destutter' Apart a ↔
      b = a ∨ b ∈ l ∧ Apart a b ∧ ∀ d ∈ l, d.slot = b.slot → Preferred b d := by
  induction l generalizing a with
  | nil => simp
  | cons c rest ih =>
    -- Either `c` begins a group, and is kept for it, or it is in the group of `a` and is dropped.
    by_cases new : Apart a c
    · rw [List.destutter'_cons_pos _ new, List.mem_cons, ih grouped.rest]
      refine or_congr_right ⟨?_, ?_⟩
      · rintro (rfl | ⟨member, apart, best⟩)
        · exact ⟨.head rest, new, fun _ => grouped.rest.first⟩
        · refine ⟨.tail c member, grouped.apart new (.tail c member), fun d there same => ?_⟩
          rcases List.mem_cons.1 there with rfl | there
          · exact absurd same apart
          · exact best d there same
      · rintro ⟨member, -, best⟩
        by_cases same : b.slot = c.slot
        · exact .inl ((best c (.head rest) same.symm).antisymm (grouped.rest.first member same))
        · have later := (List.mem_cons.1 member).resolve_left fun equal => same (equal ▸ rfl)
          exact .inr ⟨later, Ne.symm same, fun d there => best d (.tail c there)⟩
    · have together : a.slot = c.slot := Decidable.not_not.1 new
      rw [List.destutter'_cons_neg _ new, ih grouped.skip]
      refine or_congr_right ⟨?_, ?_⟩
      · rintro ⟨member, apart, best⟩
        refine ⟨.tail c member, apart, fun d there same => ?_⟩
        rcases List.mem_cons.1 there with rfl | there
        · exact absurd (together.trans same) apart
        · exact best d there same
      · rintro ⟨member, apart, best⟩
        have later := (List.mem_cons.1 member).resolve_left fun equal => apart (equal ▸ together)
        exact ⟨later, apart, fun d there => best d (.tail c there)⟩

theorem apart_destutter' (grouped : Grouped (a :: l)) : (l.destutter' Apart a).Pairwise Apart := by
  induction l generalizing a with
  | nil => exact List.pairwise_singleton _ _
  | cons c rest ih =>
    by_cases new : Apart a c
    · rw [List.destutter'_cons_pos _ new]
      refine List.Pairwise.cons (fun b kept => ?_) (ih grouped.rest)
      rcases (mem_destutter' grouped.rest).1 kept with rfl | ⟨member, -⟩
      · exact new
      · exact grouped.apart new (.tail c member)
    · rw [List.destutter'_cons_neg _ new]
      exact ih grouped.skip

theorem mem_destutter (grouped : Grouped l) :
    b ∈ l.destutter Apart ↔ b ∈ l ∧ ∀ d ∈ l, d.slot = b.slot → Preferred b d := by
  cases l with
  | nil => simp
  | cons a rest =>
    rw [List.destutter_cons', mem_destutter' grouped]
    constructor
    · rintro (rfl | ⟨member, apart, best⟩)
      · exact ⟨.head rest, fun _ => grouped.first⟩
      · refine ⟨.tail a member, fun d there same => ?_⟩
        rcases List.mem_cons.1 there with rfl | there
        · exact absurd same apart
        · exact best d there same
    · rintro ⟨member, best⟩
      by_cases same : b.slot = a.slot
      · exact .inl ((best a (.head rest) same.symm).antisymm (grouped.first member same))
      · have later := (List.mem_cons.1 member).resolve_left fun equal => same (equal ▸ rfl)
        exact .inr ⟨later, Ne.symm same, fun d there => best d (.tail a there)⟩

theorem nodup_destutter (grouped : Grouped l) : (l.destutter Apart).Nodup := by
  cases l with
  | nil => exact List.nodup_nil
  | cons a rest =>
    exact (apart_destutter' grouped).imp fun apart same => apart (congrArg slot same)

theorem ordered_mergeSort (nodup : l.Nodup) : Ordered (l.mergeSort precedes) := by
  have apart : (l.mergeSort precedes).Nodup := (List.mergeSort_perm l precedes).nodup_iff.2 nodup
  refine ((pairwise_sorted order l).and apart).imp fun {a b} before => ?_
  rcases Ordering.isLE_iff_eq_lt_or_eq_eq.1 before.1 with strict | same
  · exact strict
  · exact absurd (eq_of_order_eq same) before.2

theorem normalForm_sortedForm (blocks : List StackBlock) :
    NormalForm blocks (sortedForm blocks) := by
  have grouped := pairwise_sorted groupOrder (blocks.filter fun b => 0 < b.size)
  refine ⟨ordered_mergeSort (nodup_destutter grouped), fun b => ?_⟩
  rw [sortedForm, List.mem_mergeSort, mem_destutter grouped]
  simp only [List.mem_mergeSort, List.mem_filter, decide_eq_true_eq, Chosen, and_assoc, and_imp]

/-- Sorting and dropping neighbours comes to the same as choosing among all blocks of a slot. -/
theorem sortedForm_eq (blocks : List StackBlock) : sortedForm blocks = canonical blocks :=
  (normalForm_sortedForm blocks).eq_canonical

/-- Whether a block makes no difference beside others: it holds nothing, or one of these is in its slot and
preferred to it. -/
def Redundant (blocks : List StackBlock) (b : StackBlock) : Prop :=
  b.size = 0 ∨ ∃ a ∈ blocks, a.slot = b.slot ∧ Preferred a b

theorem Preferred.size_pos (preferred : Preferred a b) (solid : 0 < b.size) : 0 < a.size := by
  rcases preferred with larger | ⟨same, -⟩
  · exact UInt64.lt_trans solid larger
  · exact same ▸ solid

theorem chosen_beside (members : ∀ b, b ∈ other ↔ b ∈ blocks ∨ b ∈ more)
    (redundant : ∀ b ∈ more, Redundant blocks b) : Chosen other b ↔ Chosen blocks b := by
  -- A redundant block gives way to one of the others, so to the chosen one.
  have beaten : ∀ c ∈ more, 0 < c.size → ∃ a ∈ blocks, 0 < a.size ∧ a.slot = c.slot ∧ Preferred a c := by
    intro c member solid
    rcases redundant c member with empty | ⟨a, there, same, preferred⟩
    · rw [empty] at solid
      contradiction
    · exact ⟨a, there, preferred.size_pos solid, same, preferred⟩
  constructor
  · rintro ⟨member, solid, best⟩
    have among : ∀ c ∈ blocks, 0 < c.size → c.slot = b.slot → Preferred b c :=
      fun c there => best c ((members c).2 (.inl there))
    rcases (members b).1 member with there | beside
    · exact ⟨there, solid, among⟩
    · obtain ⟨a, there, aSolid, same, preferred⟩ := beaten b beside solid
      have equal : b = a := (among a there aSolid same).antisymm preferred
      exact ⟨equal ▸ there, solid, among⟩
  · rintro ⟨there, solid, best⟩
    refine ⟨(members b).2 (.inl there), solid, fun c member cSolid same => ?_⟩
    rcases (members c).1 member with among | beside
    · exact best c among cSolid same
    · obtain ⟨a, aThere, aSolid, aSame, preferred⟩ := beaten c beside cSolid
      exact (best a aThere aSolid (aSame.trans same)).trans preferred

theorem canonical_beside (members : ∀ b, b ∈ other ↔ b ∈ blocks ∨ b ∈ more)
    (redundant : ∀ b ∈ more, Redundant blocks b) : canonical other = canonical blocks := by
  apply NormalForm.eq_canonical
  exact ⟨ordered_foldr _, fun b => mem_canonical.trans (chosen_beside members redundant)⟩

theorem canonical_canonical (blocks : List StackBlock) :
    canonical (canonical blocks) = canonical blocks := by
  symm
  apply NormalForm.eq_canonical
  refine ⟨ordered_foldr _, fun b => ⟨fun member => ?_, And.left⟩⟩
  have chosen := mem_canonical.1 member
  refine ⟨member, chosen.2.1, fun c there _ same => ?_⟩
  rw [(mem_canonical.1 there).eq_of_slot chosen same]
  exact preferred_self b

end StackBlock

namespace Catalog

open StackBlock

variable {c after : Catalog} {blocks : List StackBlock}

theorem vector_internVector (c : Catalog) (blocks : List StackBlock) :
    (c.internVector blocks).2.vector (c.internVector blocks).1 = .ok (canonical blocks) :=
  vector_eq_ok_iff.2 (Pool.get?_intern _ _)

theorem internVector_congr {other : List StackBlock} (same : canonical other = canonical blocks)
    (c : Catalog) : c.internVector other = c.internVector blocks := by
  unfold internVector
  rw [same]

theorem Extends.internVector_again (grown : Extends (c.internVector blocks).2 after) :
    after.internVector (canonical blocks) = ((c.internVector blocks).1, after) := by
  have found := Pool.intern_again grown.vectors
  rw [internVector, canonical_canonical, found]
  rfl

structure Normalises (c : Catalog) (blocks form : List StackBlock) : Prop where
  stored : (c.internVector blocks).2.vector (c.internVector blocks).1 = .ok form
  increasing : form.Pairwise fun a b => order a b = .lt
  once : ∀ b ∈ blocks, 0 < b.size →
    ∃! a, a ∈ form ∧ a.base = b.base ∧ a.spRelative = b.spRelative
  largest : ∀ a ∈ form, a ∈ blocks ∧ 0 < a.size ∧
    ∀ b ∈ blocks, b.base = a.base → b.spRelative = a.spRelative →
      b.size ≤ a.size ∧ (b.size = a.size → (order a b).isLE = true)
  sorted : form = sortedForm blocks
  permuted : ∀ other, other.Perm blocks → c.internVector other = c.internVector blocks
  repeated : ∀ other, (∀ b, b ∈ other ↔ b ∈ blocks) → c.internVector other = c.internVector blocks
  padded : ∀ more other, (∀ b ∈ more, Redundant blocks b) → other.Perm (blocks ++ more) →
    c.internVector other = c.internVector blocks
  again : ∀ after, Extends (c.internVector blocks).2 after →
    after.internVector form = ((c.internVector blocks).1, after)

theorem canonical_largest {a b : StackBlock} (member : a ∈ canonical blocks) (there : b ∈ blocks)
    (same : b.slot = a.slot) :
    b.size ≤ a.size ∧ (b.size = a.size → (order a b).isLE = true) := by
  obtain ⟨-, solid, best⟩ := mem_canonical.1 member
  by_cases empty : 0 < b.size
  · rcases best b there empty same with larger | ⟨equal, below⟩
    · exact ⟨UInt64.le_of_lt larger, fun equal => absurd equal (UInt64.ne_of_lt larger)⟩
    · exact ⟨UInt64.le_of_eq equal, fun _ => below⟩
  · have smaller : b.size < a.size := by
      have zero := UInt64.not_lt.1 empty
      grind
    exact ⟨UInt64.le_of_lt smaller, fun equal => absurd equal (UInt64.ne_of_lt smaller)⟩

/-- A vector is stored as the largest block of each slot, in order, whichever way it was given. -/
theorem internVector_normalises (c : Catalog) (blocks : List StackBlock) :
    ∃ form, c.Normalises blocks form := by
  refine ⟨canonical blocks, ?_⟩
  have slots : ∀ a b : StackBlock, a.slot = b.slot ↔ a.base = b.base ∧ a.spRelative = b.spRelative :=
    fun _ _ => Prod.mk.injEq _ _ _ _ ▸ Iff.rfl
  have nothing : ∀ b ∈ [], Redundant blocks b := fun _ absurd => by contradiction
  have known : ∀ other, (∀ b, b ∈ other ↔ b ∈ blocks) → c.internVector other = c.internVector blocks :=
    fun other members => internVector_congr
      (canonical_beside (fun b => by rw [members]; simp) nothing) c
  refine {
    stored := vector_internVector c blocks
    increasing := ordered_foldr _
    once := fun b member solid => ?_
    largest := fun a member => ?_
    sorted := (sortedForm_eq blocks).symm
    permuted := fun other perm => known other fun _ => perm.mem_iff
    repeated := known
    padded := fun more other redundant perm => internVector_congr
      (canonical_beside (fun b => by rw [perm.mem_iff, List.mem_append]) redundant) c
    again := fun after grown => grown.internVector_again }
  · obtain ⟨a, inside, same, only⟩ := (normalForm_canonical blocks).slot member solid
    refine ⟨a, ⟨inside, (slots a b).1 same⟩, fun d ⟨there, also⟩ => only d there ((slots d b).2 also)⟩
  · obtain ⟨there, solid, -⟩ := mem_canonical.1 member
    refine ⟨there, solid, fun b among base spRelative => ?_⟩
    exact canonical_largest member among ((slots b a).2 ⟨base, spRelative⟩)

end Catalog

end Overrun
