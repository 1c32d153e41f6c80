import Overrun.Proofs.Checker.Effects
import Overrun.Proofs.Checker.Reachable
import Overrun.Proofs.Learned.Judging

/-! An access that leaves the block its instruction has learned is reported, whatever it runs into. One
that stays inside is not, as long as no nearer block takes it. What was learned and what is found agree
just when they are the same block, for entries that are there at once have different bytes. -/

namespace Overrun

theorem Report.total_push (r : Report) (limit : Nat) (d : Diagnostic) :
    (r.push limit d).total = r.total + 1 := by
  unfold push total
  split
  · simp only [List.length_append, List.length_singleton]
    omega
  · simp only
    omega

theorem Invariant.revised_confirmed {learned fresh : Invariant}
    (confirmed : learned.judge fresh = .confirmed) : learned.revised fresh = learned := by
  unfold revised
  rw [confirmed]

/-- Whether no block that is looked at before the one of an invariant holds an access. -/
def Invariant.Foremost (registered : IntervalMap Registration) (blocks : List StackBlock)
    (access : Access) : Invariant → Prop
  | unset | unknown => True
  | ownFrame span _ =>
    ∃ before block after, blocks = before ++ block :: after ∧
      block.span access.sp access.fp = span ∧ ∀ b ∈ before, ¬b.Holds access
  | callerFrame .. => ∀ b ∈ blocks, ¬b.Holds access
  | global .. =>
    (∀ b ∈ blocks, ¬b.Holds access) ∧
      ∀ e ∈ registered.entries, ¬e.interval.contains access.span = true

section Classification

variable {registered : IntervalMap Registration} {globals : IntervalMap GlobalRef}
  {vector : VectorRef} {blocks : List StackBlock} {access : Access} {depth : Nat}
  {learned : Invariant} {span : Span}

theorem agrees_of_outside (registeredWf : registered.WellFormed) (globalsWf : globals.WellFormed)
    (below : ∀ e ∈ registered.entries, e.value.depth < depth)
    (live : learned.Live registered globals depth) (confined : learned.span? = some span)
    (outside : ¬span.contains access.span = true) :
    learned.agrees (classification registered globals vector blocks access) = false := by
  apply Bool.eq_false_iff.2
  intro agrees
  have same :=
    (Invariant.agrees_iff registeredWf globalsWf live (classification_live below)).1 agrees
  exact outside (contains_of_classification (same.2.symm.trans confined))

theorem agrees_of_inside (registeredWf : registered.WellFormed) (globalsWf : globals.WellFormed)
    (live : learned.Live registered globals depth) (confined : learned.span? = some span)
    (inside : span.contains access.span = true) (nonempty : access.span.size ≠ 0)
    (foremost : learned.Foremost registered blocks access) :
    learned.agrees (classification registered globals vector blocks access) = true := by
  cases learned with
  | unset => contradiction
  | unknown => contradiction
  | ownFrame learnedSpan block =>
    cases confined
    obtain ⟨before, found, after, rfl, rfl, none⟩ := foremost
    rw [classification_own none inside]
    simp [Invariant.agrees]
  | callerFrame node learnedSpan block owner =>
    cases confined
    obtain ⟨-, iv, member, rfl⟩ := live
    rw [classification_caller registeredWf nonempty foremost member inside]
    simp [Invariant.agrees]
  | global node learnedSpan block =>
    cases confined
    obtain ⟨iv, member, rfl⟩ := live
    rw [classification_global globalsWf nonempty foremost.1 foremost.2 member inside]
    simp [Invariant.agrees]

end Classification

namespace Checker

variable {c : Checker} {tid : ThreadId} {env : Environment} {hook : AccessHook}
  {learned : Invariant} {span : Span} {o : Outcome Unit}

/-- What comes of an access by an instruction that has learned something. -/
structure Judged (c : Checker) (tid : ThreadId) (hook : AccessHook) (learned fresh : Invariant)
    (o : Outcome Unit) : Prop where
  revised : o.checker.learned? tid hook.instruction = some (learned.revised fresh)
  counted : o.checker.statistics.mismatched =
    c.statistics.mismatched + if learned.judge fresh = .mismatched then 1 else 0
  reported : learned.judge fresh = .mismatched →
    o.checker.report.total = c.report.total + 1 ∧
      ∃ d : Diagnostic, o.events = [.mismatched tid d.summary]
  silent : learned.judge fresh ≠ .mismatched → o.checker.report = c.report ∧ o.events = []

theorem learned?_eq {t : Thread} (there : c.thread? tid = some t) (instruction : UInt64) :
    c.learned? tid instruction =
      (t.stack.top.sites.find? instruction).map (·.invariant) := by
  unfold learned?
  rw [there]
  rfl

theorem learned?_congr {after : Checker} (threads : after.threads = c.threads) (tid : ThreadId)
    (instruction : UInt64) : after.learned? tid instruction = c.learned? tid instruction := by
  unfold learned? thread?
  rw [threads]

theorem learned?_afterAccess {t : Thread} (there : c.thread? tid = some t) {r : Thread.Classified}
    {instruction : UInt64} {vector : VectorRef} {l : SiteTable.Located}
    (wf : r.thread.stack.top.sites.WellFormed)
    (located : r.thread.stack.top.sites.Locates instruction vector l) :
    (c.afterAccess tid r l).learned? tid instruction =
      some (l.site.invariant.revised r.invariant) := by
  let sites := l.learn (l.site.invariant.revised r.invariant)
  have after : (c.afterAccess tid r l).thread? tid = some (r.thread.withTopSites sites) :=
    thread?_setThread there
  rw [learned?_eq after]
  show (sites.find? instruction).map (·.invariant) = _
  rw [located.find?_learn wf, if_pos rfl]
  rfl

/-- An access is judged by its classification alone, and everything it changes follows from that. -/
theorem WellFormed.judged (wf : c.WellFormed)
    (known : c.learned? tid hook.instruction = some learned)
    (done : c.access env tid hook = .ok o) :
    ∃ t blocks, c.thread? tid = some t ∧ c.catalog.vector hook.vector = .ok blocks ∧
      learned.Live t.registered c.globals t.depth ∧
      c.Judged tid hook learned
        (classification t.registered c.globals hook.vector blocks hook.access) o := by
  obtain ⟨t, blocks, l, there, frame, located, reported⟩ := access_ok_iff.1 done
  have threadWf := wf.threads tid t there
  have fresh := @classify_invariant t c.globals hook.vector blocks hook.access
    threadWf.registered threadWf.cached
  obtain ⟨hits, thread, -⟩ :=
    classify_thread threadWf.cached c.globals hook.vector blocks hook.access
  generalize t.classify c.globals hook.vector blocks hook.access = r at *
  have top : r.thread.stack.top.sites = t.stack.top.sites := by rw [thread]
  have sitesWf : r.thread.stack.top.sites.WellFormed := top ▸ threadWf.live.top.1
  have locates := SiteTable.findOrCreate_ok sitesWf located
  -- The hits may have changed by the time the site is looked up, but the sites have not.
  have same : l.site.invariant = learned := by
    rw [learned?_eq there, ← top] at known
    rw [locates.invariant_eq, known]
    rfl
  obtain ⟨-, threads, statistics⟩ := reportVerdict_keeps reported
  have revised := learned?_afterAccess there sitesWf locates
  rw [same, fresh] at revised reported
  refine ⟨t, blocks, there, frame, ?_, ?_, ?_, ?_, ?_⟩
  · rw [top] at locates
    exact same ▸ threadWf.live.top.located locates
  · rw [learned?_congr threads, revised]
  · rw [statistics]
    unfold afterAccess
    rw [Statistics.countAccess_mismatched, same, fresh]
  · intro mismatched
    rcases reportVerdict_ok_iff.1 reported with ⟨-, d, -, rfl⟩ | ⟨fits, -⟩
    · exact ⟨Report.total_push _ _ _, d, rfl⟩
    · contradiction
  · intro fits
    rcases reportVerdict_ok_iff.1 reported with ⟨mismatched, -⟩ | ⟨-, rfl⟩
    · contradiction
    · exact ⟨rfl, rfl⟩

/-- An access outside of what its instruction has learned is reported once. -/
theorem Reachable.reports_outside (reachable : c.Reachable)
    (known : c.learned? tid hook.instruction = some learned)
    (confined : learned.span? = some span) (outside : ¬span.contains hook.access.span = true)
    (done : c.access env tid hook = .ok o) :
    o.checker.statistics.mismatched = c.statistics.mismatched + 1 ∧
      o.checker.report.total = c.report.total + 1 ∧
      ∃ d : Diagnostic, o.events = [.mismatched tid d.summary] := by
  have wf := reachable.wellFormed
  obtain ⟨t, blocks, there, -, live, judged⟩ := wf.judged known done
  have threadWf := wf.threads tid t there
  have differs := @agrees_of_outside _ _ hook.vector blocks _ _ _ _ threadWf.registered wf.globals
    (fun e member => threadWf.depth_lt member) live confined outside
  have mismatched := Invariant.judge_mismatched confined differs
  refine ⟨?_, judged.reported mismatched⟩
  rw [judged.counted, if_pos mismatched]

def sampleHook (address : UInt64) : AccessHook :=
  ⟨address, 0x7f78, 0x7f80, 1, 0x2000, ⟨1⟩⟩

theorem learned?_sample :
    sample.learned? ⟨0⟩ 0x2000 = some (.callerFrame ⟨0⟩ ⟨0x7fe0, 16⟩ ⟨⟨0⟩, 0⟩ 1) := by
  decide +kernel

theorem reports_outside_sample :
    ∃ o, sample.access sampleEnvironment ⟨0⟩ (sampleHook 0x7ff0) = .ok o ∧
      o.checker.statistics.mismatched = sample.statistics.mismatched + 1 ∧
      o.checker.report.total = sample.report.total + 1 := by
  have fine : (sample.access sampleEnvironment ⟨0⟩ (sampleHook 0x7ff0)).isOk = true := by
    decide +kernel
  obtain ⟨o, done⟩ := exists_of_isOk fine
  obtain ⟨mismatched, reported, -⟩ :=
    reachable_sample.reports_outside learned?_sample rfl (by decide +kernel) done
  exact ⟨o, done, mismatched, reported⟩

/-- An access inside of what its instruction has learned is passed over, and what was learned stays, as
long as no block that is looked at earlier holds the access. -/
theorem Reachable.accepts_inside (reachable : c.Reachable)
    (known : c.learned? tid hook.instruction = some learned)
    (confined : learned.span? = some span) (inside : span.contains hook.access.span = true)
    (nonempty : 1 ≤ hook.access.span.size) {t : Thread} (there : c.thread? tid = some t)
    {blocks : List StackBlock} (frame : c.catalog.vector hook.vector = .ok blocks)
    (foremost : learned.Foremost t.registered blocks hook.access)
    (done : c.access env tid hook = .ok o) :
    o.checker.report = c.report ∧ o.checker.statistics.mismatched = c.statistics.mismatched ∧
      o.events = [] ∧ o.checker.learned? tid hook.instruction = some learned := by
  have wf := reachable.wellFormed
  have threadWf := wf.threads tid t there
  obtain ⟨other, otherBlocks, otherThere, otherFrame, live, judged⟩ := wf.judged known done
  rw [there] at otherThere
  rw [frame] at otherFrame
  cases otherThere
  cases otherFrame
  have touches : hook.access.span.size ≠ 0 := by
    intro none
    rw [none] at nonempty
    contradiction
  have agrees := @agrees_of_inside _ _ hook.vector blocks _ _ _ _ threadWf.registered wf.globals
    live confined inside touches foremost
  have confirmed := Invariant.judge_confirmed confined agrees
  have fits : learned.judge
      (classification t.registered c.globals hook.vector blocks hook.access) ≠ .mismatched := by
    rw [confirmed]
    decide
  obtain ⟨report, events⟩ := judged.silent fits
  have counted := judged.counted
  have revised := judged.revised
  rw [if_neg fits] at counted
  rw [Invariant.revised_confirmed confirmed] at revised
  exact ⟨report, counted, events, revised⟩

theorem accepts_inside_sample :
    ∃ o, sample.access sampleEnvironment ⟨0⟩ (sampleHook 0x7fef) = .ok o ∧
      o.checker.report = sample.report ∧ o.checker.learned? ⟨0⟩ 0x2000 =
        some (.callerFrame ⟨0⟩ ⟨0x7fe0, 16⟩ ⟨⟨0⟩, 0⟩ 1) := by
  have fine : (sample.access sampleEnvironment ⟨0⟩ (sampleHook 0x7fef)).isOk = true := by
    decide +kernel
  obtain ⟨o, done⟩ := exists_of_isOk fine
  have frame : sample.catalog.vector ⟨1⟩ = .ok [] := rfl
  have foremost : Invariant.Foremost sampleThread.registered [] (sampleHook 0x7fef).access
      (.callerFrame ⟨0⟩ ⟨0x7fe0, 16⟩ ⟨⟨0⟩, 0⟩ 1) :=
    fun b member => absurd member List.not_mem_nil
  obtain ⟨report, -, -, kept⟩ := reachable_sample.accepts_inside learned?_sample rfl
    (by decide +kernel) (by decide +kernel) thread?_sample frame foremost done
  exact ⟨o, done, report, kept⟩

/-- What an instruction has learned in the innermost activation agrees with what an access is found to be
just when both are of one kind and about the same bytes. Of registered blocks, and of globals, the
entries are the same just when the bytes are. And to agree is an equivalence of all invariants. -/
theorem agrees_sameBlock :
    (∀ c : Checker, c.Reachable → ∀ tid t, c.thread? tid = some t →
      ∀ site ∈ t.stack.top.sites.sites, ∀ access vector found,
      c.classify tid access vector = .ok found →
        (site.invariant.agrees found.value = true ↔
          site.invariant.kind = found.value.kind ∧ site.invariant.span? = found.value.span?) ∧
        (∀ node span block owner freshNode freshSpan freshBlock freshOwner,
          site.invariant = .callerFrame node span block owner →
            found.value = .callerFrame freshNode freshSpan freshBlock freshOwner →
              (node = freshNode ↔ span = freshSpan)) ∧
        ∀ node span block freshNode freshSpan freshBlock,
          site.invariant = .global node span block →
            found.value = .global freshNode freshSpan freshBlock →
              (node = freshNode ↔ span = freshSpan)) ∧
    Equivalence fun a b : Invariant => a.agrees b = true := by
  refine ⟨?_, Invariant.agrees_equivalence⟩
  intro c reachable tid t there site member access vector found done
  have wf := reachable.wellFormed
  have threadWf := wf.threads tid t there
  obtain ⟨other, blocks, otherThere, -, rfl⟩ := classify_ok_iff.1 done
  cases there.symm.trans otherThere
  have same := Invariant.agrees_iff threadWf.registered wf.globals
    (threadWf.live.top.2 site member) (threadWf.classify_live vector blocks access)
  refine ⟨same, ?_, ?_⟩
  · intro node span block owner freshNode freshSpan freshBlock freshOwner learned fresh
    dsimp only at fresh
    rw [learned, fresh] at same
    simpa [Invariant.agrees, Invariant.kind, Invariant.span?] using same
  · intro node span block freshNode freshSpan freshBlock learned fresh
    dsimp only at fresh
    rw [learned, fresh] at same
    simpa [Invariant.agrees, Invariant.kind, Invariant.span?] using same

theorem agrees_sameBlock_sample :
    ∃ o, sample.classify ⟨0⟩ ⟨⟨0x5008, 4⟩, 0x7f78, 0x7f80⟩ ⟨1⟩ = .ok o ∧
      (Invariant.agrees (.global ⟨0⟩ ⟨0x5000, 64⟩ ⟨0⟩) o.value = true ↔
        .global = o.value.kind ∧ some ⟨0x5000, 64⟩ = o.value.span?) := by
  have fine : (sample.classify ⟨0⟩ ⟨⟨0x5008, 4⟩, 0x7f78, 0x7f80⟩ ⟨1⟩).isOk = true := by
    decide +kernel
  have table : ⟨0x3000, ⟨1⟩, .global ⟨0⟩ ⟨0x5000, 64⟩ ⟨0⟩⟩ ∈
      sampleThread.stack.top.sites.sites := by decide +kernel
  obtain ⟨o, done⟩ := exists_of_isOk fine
  exact ⟨o, done, (agrees_sameBlock.1 _ reachable_sample _ _ thread?_sample _ table _ _ _ done).1⟩

end Checker

end Overrun
