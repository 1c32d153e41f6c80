import Overrun.Proofs.Address.Disjoint

/-! The addresses in a span. A span that runs past the top of the address space holds those up to the
top, one of no bytes holds none. Overlap of intervals is having an address in common, and a span in two
parts meets whatever one of the parts does. -/

namespace Overrun

namespace Span

instance : Membership UInt64 Span :=
  ⟨fun s a => s.start ≤ a ∧ a.toNat < s.stop⟩

/-- Whether two spans have an address in common. -/
def Meets (s t : Span) : Prop :=
  ∃ a : UInt64, a ∈ s ∧ a ∈ t

variable {s t : Span} {a : UInt64}

theorem mem_iff : a ∈ s ↔ s.start.toNat ≤ a.toNat ∧ a.toNat < s.stop :=
  and_congr_left fun _ => UInt64.le_iff_toNat_le

theorem meets_comm : s.Meets t ↔ t.Meets s :=
  exists_congr fun _ => And.comm

theorem meets_congr {r : Span} (same : ∀ a, a ∈ s ↔ a ∈ t) : r.Meets s ↔ r.Meets t :=
  exists_congr fun a => and_congr_right fun _ => same a

theorem meets_of_le (inside : s.start.toNat ≤ t.start.toNat) (below : t.start.toNat < s.stop)
    (solid : 0 < t.size.toNat) : s.Meets t := by
  refine ⟨t.start, mem_iff.2 ⟨inside, below⟩, mem_iff.2 ⟨Nat.le_refl _, ?_⟩⟩
  unfold stop
  omega

theorem meets_iff :
    s.Meets t ↔ 0 < s.size.toNat ∧ 0 < t.size.toNat ∧
      s.start.toNat < t.stop ∧ t.start.toNat < s.stop := by
  constructor
  · rintro ⟨a, first, second⟩
    rw [mem_iff] at first second
    unfold stop at *
    omega
  · rintro ⟨sSolid, tSolid, sBelow, tBelow⟩
    rcases Nat.le_total s.start.toNat t.start.toNat with before | after
    · exact meets_of_le before tBelow tSolid
    · exact meets_comm.1 (meets_of_le after sBelow sSolid)

instance (s t : Span) : Decidable (s.Meets t) :=
  decidable_of_iff _ meets_iff.symm

theorem not_meets_of_size (empty : t.size = 0) : ¬s.Meets t := by
  intro meets
  have solid := (meets_iff.1 meets).2.1
  rw [empty] at solid
  exact absurd solid (Nat.lt_irrefl 0)

theorem mem_parts {start first second : UInt64}
    (fits : start.toNat + first.toNat < 0x10000000000000000)
    (short : first.toNat + second.toNat < 0x10000000000000000) :
    a ∈ (⟨start, first + second⟩ : Span) ↔
      a ∈ (⟨start, first⟩ : Span) ∨ a ∈ (⟨start + first, second⟩ : Span) := by
  have middle : (start + first).toNat = start.toNat + first.toNat := by
    rw [UInt64.toNat_add]
    omega
  have whole : (first + second).toNat = first.toNat + second.toNat := by
    rw [UInt64.toNat_add]
    omega
  simp only [mem_iff, stop, middle, whole]
  omega

theorem meets_parts {start first second : UInt64}
    (fits : start.toNat + first.toNat < 0x10000000000000000)
    (short : first.toNat + second.toNat < 0x10000000000000000) :
    s.Meets ⟨start, first + second⟩ ↔
      s.Meets ⟨start, first⟩ ∨ s.Meets ⟨start + first, second⟩ := by
  simp only [Meets, mem_parts fits short, and_or_left, exists_or]

end Span

namespace Interval

variable {iv range : Interval} {a : UInt64}

theorem mem_span : a ∈ iv.span ↔ a ∈ iv := by
  rw [Span.mem_iff, stop_span, mem_iff, UInt64.le_iff_toNat_le, UInt64.le_iff_toNat_le]
  exact and_congr_right fun _ => Nat.lt_succ_iff

theorem overlaps_iff_meets : iv.Overlaps range ↔ iv.span.Meets range.span := by
  have ivSize := iv.toNat_size
  have rangeSize := range.toNat_size
  rw [Span.meets_iff, stop_span, stop_span]
  unfold Overlaps
  simp only [UInt64.le_iff_toNat_le, span]
  omega

theorem ofSize?_eq_some_iff {start size : UInt64} :
    ofSize? start size = some iv ↔
      0 < size ∧ (Span.mk start size).Fits ∧ iv.span = ⟨start, size⟩ := by
  constructor
  · intro fits
    obtain ⟨first, sizes⟩ := ofSize?_eq_some fits
    have solid : 0 < size := by
      have counted := iv.toNat_size
      rw [UInt64.lt_iff_toNat_lt, ← sizes, counted]
      exact Nat.succ_pos _
    refine ⟨solid, Decidable.of_not_not fun outside => ?_, ?_⟩
    · rw [(ofSize?_eq_none_iff solid).2 outside] at fits
      contradiction
    · rw [span, first, sizes]
  · rintro ⟨solid, fits, same⟩
    cases found : ofSize? start size with
    | none => exact absurd fits ((ofSize?_eq_none_iff solid).1 found)
    | some other =>
      obtain ⟨first, sizes⟩ := ofSize?_eq_some found
      have spans : other.span = iv.span := by rw [same, span, first, sizes]
      rw [eq_of_span_eq spans]

theorem clamped?_eq_none_iff {start size : UInt64} : clamped? start size = none ↔ size = 0 := by
  unfold clamped?
  split
  · next empty => simp [empty]
  · next solid => split <;> simp [solid]

theorem clamped?_eq_some {start size : UInt64} (clamped : clamped? start size = some iv) :
    iv.first = start ∧
      iv.last.toNat + 1 = min (start.toNat + size.toNat) 0x10000000000000000 := by
  have startBound := start.toNat_lt
  have sizeBound := size.toNat_lt
  unfold clamped? at clamped
  split at clamped
  · contradiction
  · next solid =>
    have nonzero : size.toNat ≠ 0 := fun none => solid (UInt64.toNat_inj.1 none)
    have less : (size - 1).toNat = size.toNat - 1 :=
      UInt64.toNat_sub_of_le _ _ (UInt64.le_iff_toNat_le.2 (Nat.pos_of_ne_zero nonzero))
    split at clamped
    · next fits =>
      cases clamped
      rw [UInt64.le_iff_toNat_le, UInt64.toNat_add, less] at fits
      refine ⟨rfl, ?_⟩
      rw [UInt64.toNat_add, less]
      omega
    · next wraps =>
      cases clamped
      rw [UInt64.le_iff_toNat_le, UInt64.toNat_add, less] at wraps
      refine ⟨rfl, ?_⟩
      rw [toNat_topAddress]
      omega

theorem mem_clamped {region : Span} (clamped : clamped? region.start region.size = some range) :
    a ∈ range ↔ a ∈ region := by
  have bounded := a.toNat_lt
  obtain ⟨first, stop⟩ := clamped?_eq_some clamped
  rw [mem_iff, Span.mem_iff, UInt64.le_iff_toNat_le, UInt64.le_iff_toNat_le, Span.stop, first]
  omega

theorem overlaps_clamped {region : Span}
    (clamped : clamped? region.start region.size = some range) :
    iv.Overlaps range ↔ iv.span.Meets region := by
  rw [overlaps_iff_meets]
  exact Span.meets_congr fun a => mem_span.trans (mem_clamped clamped)

end Interval

end Overrun
