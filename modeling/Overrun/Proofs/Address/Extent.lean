import Mathlib.Order.Interval.Set.LinearOrder
import Overrun.Proofs.Address.Bytes

/-! The bytes of intervals and spans as numbers that have no end. Up to the top of the address space, what is
decided in machine words is what is true of these numbers, and no word that is computed on the way wraps. -/

namespace Overrun

/-- The difference of two words, unless it lies below zero. -/
def exactSub? (a b : UInt64) : Option UInt64 :=
  if b ≤ a then some (a - b) else none

def exactAdd? (a b : UInt64) : Option UInt64 :=
  if a.toNat + b.toNat < 0x10000000000000000 then some (a + b) else none

theorem exactSub?_of_le {a b : UInt64} (less : b ≤ a) : exactSub? a b = some (a - b) :=
  if_pos less

theorem exactAdd?_of_lt {a b : UInt64} (fits : a.toNat + b.toNat < 0x10000000000000000) :
    exactAdd? a b = some (a + b) :=
  if_pos fits

namespace Span

/-- The bytes of a span. Those past the top of the address space count too. -/
def bytes (s : Span) : Set ℕ :=
  Set.Ico s.start.toNat s.stop

/-- Whether all of `inner` lies in `outer`, without an answer if a difference that is needed wraps. -/
def contains? (outer inner : Span) : Option Bool :=
  if outer.start ≤ inner.start then
    if inner.size ≤ outer.size then do
      let before ← exactSub? inner.start outer.start
      let spare ← exactSub? outer.size inner.size
      return before ≤ spare
    else return false
  else return false

theorem contains?_eq (outer inner : Span) : outer.contains? inner = some (outer.contains inner) := by
  unfold contains? contains
  by_cases starts : outer.start ≤ inner.start
  · by_cases sizes : inner.size ≤ outer.size
    · simp [starts, sizes, exactSub?_of_le]
    · simp [starts, sizes]
  · simp [starts]

end Span

namespace Interval

variable {iv a b : Interval} {start size : UInt64}

def bytes (iv : Interval) : Set ℕ :=
  Set.Icc iv.first.toNat iv.last.toNat

def size? (iv : Interval) : Option UInt64 := do
  exactAdd? (← exactSub? iv.last iv.first) 1

theorem size?_eq (iv : Interval) : iv.size? = some iv.size := by
  have fits : (iv.last - iv.first).toNat + 1 < 0x10000000000000000 := by
    have short := UInt64.lt_iff_toNat_lt.1 iv.last_sub_first_lt
    rw [toNat_topAddress] at short
    omega
  unfold size?
  rw [exactSub?_of_le iv.first_le_last]
  exact exactAdd?_of_lt fits

theorem one_le_size (iv : Interval) : 1 ≤ iv.size := by
  rw [UInt64.le_iff_toNat_le, iv.toNat_size]
  exact Nat.le_add_left 1 _

theorem bytes_span (iv : Interval) : iv.span.bytes = iv.bytes := by
  ext x
  rw [Span.bytes, stop_span]
  exact and_congr_right fun _ => Nat.lt_succ_iff

/-- There are no other intervals than those that can be made from a start and a size. -/
theorem ofSize?_first_size (iv : Interval) : ofSize? iv.first iv.size = some iv := by
  have within := iv.last.toNat_lt
  refine ofSize?_eq_some_iff.2 ⟨UInt64.lt_of_lt_of_le (by decide) iv.one_le_size, ?_, rfl⟩
  show iv.span.stop ≤ _
  rw [stop_span]
  omega

theorem bytes_of_ofSize? (whole : ofSize? start size = some iv) :
    iv.bytes = Set.Ico start.toNat (start.toNat + size.toNat) := by
  rw [← bytes_span, (ofSize?_eq_some_iff.1 whole).2.2]
  rfl

theorem bytes_of_clamped? (clamped : clamped? start size = some iv) :
    iv.bytes = Set.Ico start.toNat (min (start.toNat + size.toNat) 0x10000000000000000) := by
  obtain ⟨first, stop⟩ := clamped?_eq_some clamped
  rw [← bytes_span, Span.bytes, stop_span, stop, span, first]

theorem contains_iff_subset {s : Span} (solid : 1 ≤ s.size) :
    iv.contains s = true ↔ s.bytes ⊆ iv.bytes := by
  have nonempty : s.start.toNat < s.stop := Nat.lt_add_of_pos_right (UInt64.le_iff_toNat_le.1 solid)
  calc
    iv.contains s = true ↔ iv.first.toNat ≤ s.start.toNat ∧ s.stop ≤ iv.span.stop := Span.contains_iff
    _ ↔ s.bytes ⊆ iv.span.bytes := (Set.Ico_subset_Ico_iff nonempty).symm
    _ ↔ s.bytes ⊆ iv.bytes := by rw [bytes_span]

theorem overlaps_iff_nonempty : a.Overlaps b ↔ (a.bytes ∩ b.bytes).Nonempty := by
  have aOrdered := a.toNat_first_le
  have bOrdered := b.toNat_first_le
  unfold bytes Overlaps
  rw [Set.Icc_inter_Icc, Set.nonempty_Icc, UInt64.le_iff_toNat_le, UInt64.le_iff_toNat_le]
  omega

structure Taken (start size : UInt64) : Prop where
  whole_iff : (∃ iv, ofSize? start size = some iv) ↔
    0 < size.toNat ∧ start.toNat + size.toNat ≤ 0x10000000000000000
  whole : ∀ iv, ofSize? start size = some iv →
    iv.bytes = Set.Ico start.toNat (start.toNat + size.toNat) ∧ iv.size = size
  clamped_iff : (∃ iv, clamped? start size = some iv) ↔ 0 < size.toNat
  clamped : ∀ iv, clamped? start size = some iv →
    iv.bytes = Set.Ico start.toNat (min (start.toNat + size.toNat) 0x10000000000000000)

/-- What an interval is worth: it is one that can be made, its size is found without wrapping, and it is
told from its bytes alone what it holds and what it overlaps. -/
structure Measured (iv : Interval) : Prop where
  made : ofSize? iv.first iv.size = some iv
  sized : iv.size? = some iv.size ∧ 1 ≤ iv.size
  holds_iff : ∀ s : Span, 1 ≤ s.size → (iv.contains s = true ↔ s.bytes ⊆ iv.bytes)
  overlaps_iff : ∀ other, iv.Overlaps other ↔ (iv.bytes ∩ other.bytes).Nonempty

theorem taken (start size : UInt64) : Taken start size where
  whole_iff := by
    simp only [ofSize?_eq_some_iff, UInt64.lt_iff_toNat_lt]
    constructor
    · rintro ⟨iv, solid, fits, -⟩
      exact ⟨solid, fits⟩
    · rintro ⟨solid, fits⟩
      cases found : ofSize? start size with
      | none => exact absurd fits ((ofSize?_eq_none_iff (UInt64.lt_iff_toNat_lt.2 solid)).1 found)
      | some iv => exact ⟨iv, solid, fits, (ofSize?_eq_some_iff.1 found).2.2⟩
  whole iv found := ⟨bytes_of_ofSize? found, (ofSize?_eq_some found).2⟩
  clamped_iff := by
    rw [← Option.isSome_iff_exists, Option.isSome_iff_ne_none, Ne, clamped?_eq_none_iff,
      ← UInt64.toNat_inj]
    exact Nat.pos_iff_ne_zero.symm
  clamped iv found := bytes_of_clamped? found

theorem measured (iv : Interval) : Measured iv where
  made := iv.ofSize?_first_size
  sized := ⟨iv.size?_eq, iv.one_le_size⟩
  holds_iff _ solid := contains_iff_subset solid
  overlaps_iff _ := overlaps_iff_nonempty

/-- Machine words are enough for intervals and spans: whatever their starts and sizes are, what is worked out
with words is what is true without an end of the address space. -/
theorem words_suffice :
    (∀ start size, Taken start size) ∧ (∀ iv, Measured iv) ∧
      (∀ a, (single a).bytes = {a.toNat}) ∧
      ∀ outer inner : Span, outer.contains? inner = some (outer.contains inner) ∧
        (outer.contains inner = true ↔ outer.start.toNat ≤ inner.start.toNat ∧
          inner.start.toNat + inner.size.toNat ≤ outer.start.toNat + outer.size.toNat) :=
  ⟨taken, measured, fun _ => Set.Icc_self _,
    fun outer inner => ⟨outer.contains?_eq inner, Span.contains_iff⟩⟩

example : ofSize? 0xffffffffffffffff 1 = some (single 0xffffffffffffffff) ∧
    clamped? 0xffffffffffffffff 2 = some (single 0xffffffffffffffff) := by decide

end Interval

end Overrun
