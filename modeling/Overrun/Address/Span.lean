/-! A run of bytes given by its start and its length. Nothing is asked of either: a span may be empty
or run past the end of the address space. -/

namespace Overrun

structure Span where
  start : UInt64
  size : UInt64
  deriving DecidableEq, Repr

namespace Span

/-- One past the last byte, which may lie beyond the address space. -/
def stop (s : Span) : Nat :=
  s.start.toNat + s.size.toNat

/-- Whether all of `inner` lies in `outer`, decided without leaving machine words: no difference is
taken before it is known not to wrap. -/
def contains (outer inner : Span) : Bool :=
  outer.start ≤ inner.start && inner.size ≤ outer.size
    && inner.start - outer.start ≤ outer.size - inner.size

theorem contains_iff {outer inner : Span} :
    outer.contains inner ↔
      outer.start.toNat ≤ inner.start.toNat ∧ inner.stop ≤ outer.stop := by
  simp only [contains, stop, Bool.and_eq_true, decide_eq_true_eq, UInt64.le_iff_toNat_le]
  constructor
  · rintro ⟨⟨starts, sizes⟩, rest⟩
    rw [UInt64.toNat_sub_of_le _ _ (UInt64.le_iff_toNat_le.2 starts),
      UInt64.toNat_sub_of_le _ _ (UInt64.le_iff_toNat_le.2 sizes)] at rest
    omega
  · rintro ⟨starts, stops⟩
    have sizes : inner.size.toNat ≤ outer.size.toNat := by omega
    rw [UInt64.toNat_sub_of_le _ _ (UInt64.le_iff_toNat_le.2 starts),
      UInt64.toNat_sub_of_le _ _ (UInt64.le_iff_toNat_le.2 sizes)]
    omega

end Span

end Overrun
