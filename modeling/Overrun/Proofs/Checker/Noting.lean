import Overrun.Proofs.Checker.Learning

/-! A diagnostic has one note, which tells where the access lies relative to the block that its
instruction had learned. It is right about every address but the last of all, which counts as past any
block that reaches the end of the address space. -/

namespace Overrun

namespace Relation

/-- Whether a relation is true of an address and a block, in numbers that have no end. -/
inductive Tells (address : UInt64) (block : Span) : Relation → Prop where
  | before {bytes : UInt64} (ahead : address.toNat < block.start.toNat)
      (count : bytes.toNat = block.start.toNat - address.toNat) : Tells address block (.before bytes)
  | inside {bytes : UInt64} (started : block.start.toNat ≤ address.toNat)
      (short : address.toNat < block.stop)
      (count : bytes.toNat = address.toNat - block.start.toNat) : Tells address block (.inside bytes)
  | after {bytes : UInt64} (past : block.stop ≤ address.toNat)
      (count : bytes.toNat = address.toNat - block.stop) : Tells address block (.after bytes)

variable {address : UInt64} {block : Span}

/-- Where a block is taken to end. -/
def reckonedStop (block : Span) : UInt64 :=
  let wrapped := block.start + block.size
  if block.start ≤ wrapped then wrapped else 0xffffffffffffffff

theorem ofAddress_eq (address : UInt64) (block : Span) :
    ofAddress address block =
      if address < block.start then before (block.start - address)
      else if reckonedStop block ≤ address then after (address - reckonedStop block)
      else inside (address - block.start) :=
  rfl

theorem toNat_reckonedStop (block : Span) :
    (reckonedStop block).toNat = min block.stop 0xffffffffffffffff := by
  have low := block.start.toNat_lt
  have short := block.size.toNat_lt
  unfold reckonedStop Span.stop
  dsimp only
  split
  · next fits =>
    rw [UInt64.le_iff_toNat_le, UInt64.toNat_add] at fits
    rw [UInt64.toNat_add]
    omega
  · next wraps =>
    rw [UInt64.le_iff_toNat_le, UInt64.toNat_add] at wraps
    show 0xffffffffffffffff = _
    omega

theorem ofAddress_tells (fair : block.stop < 0x10000000000000000 ∨ address ≠ 0xffffffffffffffff) :
    (ofAddress address block).Tells address block := by
  have reckoned := toNat_reckonedStop block
  have bounded := address.toNat_lt
  have least : block.start.toNat ≤ block.stop := Nat.le_add_right _ _
  have short : block.stop < 0x10000000000000000 ∨ address.toNat < 0xffffffffffffffff := by
    refine fair.imp_right fun other => ?_
    have apart : address.toNat ≠ 0xffffffffffffffff := fun same => other (UInt64.toNat_inj.1 same)
    omega
  rw [ofAddress_eq]
  split
  · next ahead =>
    rw [UInt64.lt_iff_toNat_lt] at ahead
    refine .before ahead (UInt64.toNat_sub_of_le _ _ ?_)
    exact UInt64.le_iff_toNat_le.2 (Nat.le_of_lt ahead)
  · next started =>
    rw [UInt64.lt_iff_toNat_lt] at started
    split
    · next past =>
      have count := UInt64.toNat_sub_of_le _ _ past
      rw [UInt64.le_iff_toNat_le] at past
      -- Only the last address is past a stop that was cut off, and that one is ruled out.
      have whole : (reckonedStop block).toNat = block.stop := by omega
      exact .after (whole ▸ past) (whole ▸ count)
    · next inside =>
      rw [UInt64.le_iff_toNat_le] at inside
      have reached : block.start.toNat ≤ address.toNat := Nat.le_of_not_lt started
      refine .inside reached (by omega) (UInt64.toNat_sub_of_le _ _ ?_)
      exact UInt64.le_iff_toNat_le.2 reached

/-- The last address counts as past a block that reaches it. -/
theorem ofAddress_last (reaches : 0x10000000000000000 ≤ block.stop) :
    ofAddress 0xffffffffffffffff block = .after 0 := by
  have last : reckonedStop block = 0xffffffffffffffff := by
    apply UInt64.toNat_inj.1
    rw [toNat_reckonedStop]
    show _ = 0xffffffffffffffff
    omega
  have started : ¬(0xffffffffffffffff : UInt64) < block.start := by
    have bounded := block.start.toNat_lt
    rw [UInt64.lt_iff_toNat_lt]
    show ¬0xffffffffffffffff < _
    omega
  rw [ofAddress_eq, if_neg started, last]
  rfl

end Relation

namespace Checker

variable {c : Checker} {tid : ThreadId} {env : Environment} {hook : AccessHook} {o : Outcome Unit}

theorem diagnose_notes {depth : Nat} {learned fresh : Invariant} {block : Span} {d : Diagnostic}
    (confined : learned.span? = some block)
    (diagnosed : c.diagnose env tid depth hook learned fresh = .ok d) :
    d.address = hook.address ∧ d.notes = [(Relation.ofAddress hook.address block).text] := by
  unfold diagnose at diagnosed
  obtain ⟨expected, -, diagnosed⟩ := bind_eq_ok.1 diagnosed
  obtain ⟨actual, -, diagnosed⟩ := bind_eq_ok.1 diagnosed
  cases diagnosed
  rw [confined]
  exact ⟨rfl, rfl⟩

theorem learned?_of_locates {t : Thread} (there : c.thread? tid = some t) {instruction : UInt64}
    {vector : VectorRef} {l : SiteTable.Located}
    (located : t.stack.top.sites.Locates instruction vector l) (set : l.site.invariant ≠ .unset) :
    c.learned? tid instruction = some l.site.invariant := by
  have same := located.invariant_eq
  rw [learned?_eq there]
  cases found : (t.stack.top.sites.find? instruction).map (·.invariant) with
  | none =>
    rw [found] at same
    exact absurd same set
  | some learned =>
    rw [found] at same
    rw [same]
    rfl

/-- An access is reported by one diagnostic or by none. The diagnostic has one note, of where the access
lies relative to the block that was learned before. The note is right, unless the block reaches the end of
the address space and the access is of the last address: that is noted as just past the block. -/
theorem Reachable.noted (reachable : c.Reachable) (done : c.access env tid hook = .ok o) :
    (o.events = [] ∧ o.checker.report = c.report) ∨
    ∃ d learned block note,
      o.events = [.mismatched tid d.summary] ∧
      o.checker.report = c.report.push c.config.maxDiagnostics d ∧
      c.learned? tid hook.instruction = some learned ∧ learned.span? = some block ∧
      d.address = hook.address ∧ d.notes = [Relation.text note] ∧
      (block.stop < 0x10000000000000000 ∨ hook.address ≠ 0xffffffffffffffff →
        note.Tells hook.address block) ∧
      (0x10000000000000000 ≤ block.stop ∧ hook.address = 0xffffffffffffffff → note = .after 0) := by
  have wf := reachable.wellFormed
  obtain ⟨t, blocks, l, there, -, located, reported⟩ := access_ok_iff.1 done
  obtain ⟨locates, -⟩ := (wf.threads tid t there).learns located
  rcases reportVerdict_ok_iff.1 reported with ⟨mismatched, d, diagnosed, rfl⟩ | ⟨-, rfl⟩
  · obtain ⟨confined, -⟩ := Invariant.judge_eq_mismatched_iff.1 mismatched
    obtain ⟨block, spanned⟩ := Option.isSome_iff_exists.1 confined
    have set : l.site.invariant ≠ .unset := by
      intro unset
      rw [unset] at spanned
      contradiction
    obtain ⟨address, notes⟩ := diagnose_notes spanned diagnosed
    refine .inr ⟨d, l.site.invariant, block, _, rfl, rfl, learned?_of_locates there locates set,
      spanned, address, notes, Relation.ofAddress_tells, fun ⟨reaches, last⟩ => ?_⟩
    rw [last]
    exact Relation.ofAddress_last reaches
  · exact .inl ⟨rfl, rfl⟩

theorem noted_sample :
    ∃ o d note, sample.access sampleEnvironment ⟨0⟩ (sampleHook 0x7ff4) = .ok o ∧
      o.checker.report = sample.report.push 1000 d ∧ d.notes = [Relation.text note] ∧
      note.Tells 0x7ff4 ⟨0x7fe0, 16⟩ := by
  have reports : (sample.access sampleEnvironment ⟨0⟩ (sampleHook 0x7ff4)).toOption.map
      (·.events.isEmpty) = some false := by decide +kernel
  obtain ⟨o, ran, told⟩ := Option.map_eq_some_iff.1 reports
  have done := toOption_eq_some.1 ran
  rcases reachable_sample.noted done with ⟨silent, -⟩ |
    ⟨d, learned, block, note, -, report, known, confined, -, notes, fair, -⟩
  · rw [silent] at told
    contradiction
  · cases learned?_sample.symm.trans known
    cases confined
    exact ⟨o, d, note, done, report, notes, fair (.inl (by decide))⟩

/-- A buffer that takes up the last bytes of the address space is touched at its start. -/
def topmostOperations : List Operation := [
  .createThread none ⟨0⟩,
  .startThread ⟨0⟩ 0xffffffffffffff00,
  .internVector [⟨0, 16, false, true, "buffer"⟩],
  .access ⟨0⟩ ⟨0xfffffffffffffff0, 0xffffffffffffff80, 0xfffffffffffffff0, 4, 0x2000, ⟨0⟩⟩]

def topmost : Checker :=
  sampleStart.reached (topmostOperations.map (sampleEnvironment, ·))

def topmostHook : AccessHook :=
  ⟨0xffffffffffffffff, 0xffffffffffffff80, 0xfffffffffffffff0, 4, 0x2000, ⟨0⟩⟩

/-- The last byte of the buffer is noted as past it. -/
theorem noted_past_topmost :
    topmost.Reachable ∧
    (topmost.learned? ⟨0⟩ topmostHook.instruction).bind Invariant.span? =
      some ⟨0xfffffffffffffff0, 16⟩ ∧
    (topmost.access sampleEnvironment ⟨0⟩ topmostHook).toOption.map
      (·.checker.report.diagnostics.map (·.notes)) = some [[(Relation.after 0).text]] ∧
    (Relation.inside 15).Tells topmostHook.address ⟨0xfffffffffffffff0, 16⟩ ∧
    ¬(Relation.after 0).Tells topmostHook.address ⟨0xfffffffffffffff0, 16⟩ := by
  refine ⟨(Reachable.initial _ _).reached _, by decide +kernel, by decide +kernel,
    .inside (by decide) (by decide) (by decide), ?_⟩
  intro told
  cases told with
  | after past => exact absurd past (by decide)

end Checker

end Overrun
