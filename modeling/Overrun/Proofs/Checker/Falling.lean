import Overrun.Proofs.Checker.Learning
import Overrun.Proofs.Thread.Falling

/-! The search for the block that an access falls in always finds it, whatever has been found recently. -/

namespace Overrun.Checker

variable {c : Checker} {tid : ThreadId} {t : Thread} {vector : VectorRef} {blocks : List StackBlock}

theorem classify_value {access : Access} (there : c.thread? tid = some t)
    (known : c.catalog.vector vector = .ok blocks) (registered : t.registered.WellFormed)
    (cached : t.Cached) :
    ∃ o, c.classify tid access vector = .ok o ∧
      o.value = classification t.registered c.globals vector blocks access :=
  ⟨_, classify_ok_iff.2 ⟨t, blocks, there, known, rfl⟩, classify_invariant registered cached⟩

/-- The classification of an access that touches something is the block it falls in, if it falls in one.
The recent hits have no say in it, and neither has a registered block that the access only starts in. -/
theorem Reachable.classify_exact (reachable : c.Reachable) (there : c.thread? tid = some t)
    (known : c.catalog.vector vector = .ok blocks) (access : Access)
    (nonempty : access.span.size ≠ 0) :
    ∃ o, c.classify tid access vector = .ok o ∧ o.value ≠ .unset ∧
      (∀ inv, FallsIn t.registered c.globals vector blocks access inv ↔ inv = o.value) ∧
      (∀ hits : RecentHits Registration, (∀ e ∈ hits.entries, e ∈ t.registered.entries) →
        ∃ p, (c.setThread tid { t with hits := hits }).classify tid access vector = .ok p ∧
          p.value = o.value) ∧
      ∀ partly ∈ t.registered.entries, access.span.start ∈ partly.interval →
        ¬partly.Takes access → (∀ b ∈ blocks, ¬b.Takes access) →
        ∀ e ∈ c.globals.entries, e.Takes access →
          o.value = .global e.id e.interval.span e.value := by
  have wf := reachable.wellFormed
  have threadWf := wf.threads tid t there
  obtain ⟨o, done, value⟩ :=
    @classify_value c tid t vector blocks access there known threadWf.registered threadWf.cached
  have falls : ∀ inv, FallsIn t.registered c.globals vector blocks access inv ↔ inv = o.value := by
    intro inv
    rw [value]
    exact fallsIn_iff threadWf.registered wf.globals nonempty
  refine ⟨o, done, ?_, falls, fun hits good => ?_, ?_⟩
  · rw [value]
    exact classification_ne_unset _ _ _ _ _
  · have other : (c.setThread tid { t with hits := hits }).thread? tid =
        some { t with hits := hits } := thread?_setThread there
    obtain ⟨p, again, same⟩ := classify_value other known threadWf.registered good
    exact ⟨p, again, same.trans value.symm⟩
  · intro partly member starts exceeds none e global takes
    refine ((falls _).1 ?_).symm
    exact fallsIn_global_of_partly threadWf.registered nonempty none member starts exceeds global
      takes

/-- A block of static storage is loaded where it reaches over the end of the registered buffer. -/
def sampleStraddling : Checker :=
  sample.reached [(Recorded.environment { Recorded.empty with
    globalBlocks := [(2, [⟨0x7fe8, 64, true, "arena", "arena.so"⟩])] }, .loadGlobals 2)]

theorem classify_exact_sample :
    ∃ o, sampleStraddling.classify ⟨0⟩ ⟨⟨0x7fec, 8⟩, 0x7f78, 0x7f80⟩ ⟨1⟩ = .ok o ∧
      o.value = .global ⟨1⟩ ⟨0x7fe8, 64⟩ ⟨1⟩ := by
  have reachable : sampleStraddling.Reachable := reachable_sample.reached _
  have there : sampleStraddling.thread? ⟨0⟩ = some sampleThread := by decide +kernel
  have known : sampleStraddling.catalog.vector ⟨1⟩ = .ok [] := by decide +kernel
  obtain ⟨o, done, -, -, -, shared⟩ :=
    reachable.classify_exact there known ⟨⟨0x7fec, 8⟩, 0x7f78, 0x7f80⟩ (by decide)
  let buffer : Entry Registration := ⟨⟨0x7fe0, 0x7fef, by decide, by decide⟩, ⟨0⟩, ⟨⟨⟨0⟩, 0⟩, 1⟩⟩
  let arena : Entry GlobalRef := ⟨⟨0x7fe8, 0x8027, by decide, by decide⟩, ⟨1⟩, ⟨1⟩⟩
  have registered : buffer ∈ sampleThread.registered.entries := by decide +kernel
  have loaded : arena ∈ sampleStraddling.globals.entries := by decide +kernel
  have none : ∀ b ∈ ([] : List StackBlock), ¬b.Takes ⟨⟨0x7fec, 8⟩, 0x7f78, 0x7f80⟩ :=
    fun _ absurd => by contradiction
  have starts : (0x7fec : UInt64) ∈ buffer.interval := by decide +kernel
  have exceeds : ¬buffer.Takes ⟨⟨0x7fec, 8⟩, 0x7f78, 0x7f80⟩ := by decide +kernel
  have takes : arena.Takes ⟨⟨0x7fec, 8⟩, 0x7f78, 0x7f80⟩ := by decide +kernel
  have span : arena.interval.span = ⟨0x7fe8, 64⟩ := by decide +kernel
  have falls := shared buffer registered starts exceeds none arena loaded takes
  rw [span] at falls
  exact ⟨o, done, falls⟩

end Overrun.Checker
