import Overrun.Address.Span
import Overrun.Text.Hexadecimal

/-! Non-empty runs of addresses that stay inside the address space, given by their first and their
last byte so that one may end at the very top. The address space as a whole is not among them, so
the size of each is a machine word. -/

namespace Overrun

def topAddress : UInt64 := 0xffffffffffffffff

theorem toNat_topAddress : topAddress.toNat = 0xffffffffffffffff := rfl

theorem le_topAddress (a : UInt64) : a ≤ topAddress := by
  rw [UInt64.le_iff_toNat_le, toNat_topAddress]
  have bounded := a.toNat_lt
  omega

structure Interval where
  first : UInt64
  last : UInt64
  first_le_last : first ≤ last
  last_sub_first_lt : last - first < topAddress
  deriving DecidableEq

namespace Interval

theorem add_sub_lt_topAddress {start size : UInt64} (pos : size ≠ 0) :
    start + (size - 1) - start < topAddress := by
  have shift : start + (size - 1) - start = size - 1 := by
    rw [UInt64.add_comm, UInt64.add_sub_cancel]
  have nonzero : size.toNat ≠ 0 := fun h => pos (UInt64.toNat_inj.1 h)
  have bounded := size.toNat_lt
  rw [shift, UInt64.lt_iff_toNat_lt, toNat_topAddress, UInt64.toNat_sub]
  simp only [UInt64.toNat_one]
  omega

theorem topAddress_sub_lt {start step : UInt64} (wraps : ¬start ≤ start + step) :
    topAddress - start < topAddress := by
  have nonzero : start.toNat ≠ 0 := by
    rw [UInt64.le_iff_toNat_le] at wraps
    omega
  have bounded := start.toNat_lt
  rw [UInt64.lt_iff_toNat_lt, UInt64.toNat_sub, toNat_topAddress]
  omega

/-- The `size` bytes from `start`, unless there are none or they run past the top. -/
def ofSize? (start size : UInt64) : Option Interval :=
  if fits : size ≠ 0 ∧ start ≤ start + (size - 1) then
    some ⟨start, start + (size - 1), fits.2, add_sub_lt_topAddress fits.1⟩
  else none

/-- The bytes of the `size` from `start` that exist, unless there are none. -/
def clamped? (start size : UInt64) : Option Interval :=
  if empty : size = 0 then none
  else if fits : start ≤ start + (size - 1) then
    some ⟨start, start + (size - 1), fits, add_sub_lt_topAddress empty⟩
  else some ⟨start, topAddress, le_topAddress start, topAddress_sub_lt fits⟩

def single (a : UInt64) : Interval :=
  ⟨a, a, UInt64.le_refl a, by rw [UInt64.sub_self]; decide⟩

def size (iv : Interval) : UInt64 :=
  iv.last - iv.first + 1

def span (iv : Interval) : Span :=
  ⟨iv.first, iv.size⟩

theorem toNat_first_le (iv : Interval) : iv.first.toNat ≤ iv.last.toNat :=
  UInt64.le_iff_toNat_le.1 iv.first_le_last

theorem toNat_size (iv : Interval) : iv.size.toNat = iv.last.toNat - iv.first.toNat + 1 := by
  have short := UInt64.lt_iff_toNat_lt.1 iv.last_sub_first_lt
  have difference := UInt64.toNat_sub_of_le _ _ iv.first_le_last
  rw [toNat_topAddress] at short
  rw [size, UInt64.toNat_add, UInt64.toNat_one]
  omega

theorem stop_span (iv : Interval) : iv.span.stop = iv.last.toNat + 1 := by
  have ordered := iv.toNat_first_le
  simp only [Span.stop, span, toNat_size]
  omega

def contains (iv : Interval) (s : Span) : Bool :=
  iv.span.contains s

instance : Membership UInt64 Interval :=
  ⟨fun iv a => iv.first ≤ a ∧ a ≤ iv.last⟩

instance (a : UInt64) (iv : Interval) : Decidable (a ∈ iv) :=
  inferInstanceAs (Decidable (_ ∧ _))

theorem mem_iff {a : UInt64} {iv : Interval} : a ∈ iv ↔ iv.first ≤ a ∧ a ≤ iv.last :=
  Iff.rfl

theorem first_mem (iv : Interval) : iv.first ∈ iv :=
  ⟨UInt64.le_refl _, iv.first_le_last⟩

def Overlaps (a b : Interval) : Prop :=
  a.first ≤ b.last ∧ b.first ≤ a.last

instance (a b : Interval) : Decidable (a.Overlaps b) :=
  inferInstanceAs (Decidable (_ ∧ _))

theorem overlaps_comm {a b : Interval} : a.Overlaps b ↔ b.Overlaps a :=
  And.comm

theorem overlaps_self (a : Interval) : a.Overlaps a :=
  ⟨a.first_le_last, a.first_le_last⟩

/-- By address, with intervals that overlap taken as equal. Among disjoint intervals this is a
linear order. -/
def order (a b : Interval) : Ordering :=
  if a.last < b.first then .lt
  else if b.last < a.first then .gt
  else .eq

def text (iv : Interval) : String :=
  "[" ++ Text.hex iv.first ++ s!", +{iv.size})"

instance : ToString Interval := ⟨text⟩

end Interval

end Overrun
