import Overrun.Proofs.Checker.Detection
import Overrun.Proofs.Checker.Isolation
import Overrun.Proofs.Checker.Upkeep
import Overrun.Proofs.Learned.Judging
import Overrun.Proofs.Thread.Hitless

/-! What one access does. The site of its instruction keeps what it has learned if the access agrees with
it and learns where the access was if not; a diagnostic is given only if it had learned of a block. All
else that can be seen of the threads stays as it is, and the same access once more does nothing at all. -/

namespace Overrun

theorem classification_ne_unset (registered : IntervalMap Registration)
    (globals : IntervalMap GlobalRef) (vector : VectorRef) (blocks : List StackBlock)
    (access : Access) : classification registered globals vector blocks access ≠ .unset := by
  rcases classification_cases registered globals vector blocks access with
    ⟨block, index, -, same⟩ | ⟨e, -, -, same⟩ | ⟨e, -, -, same⟩ | same
  all_goals
    rw [same]
    exact Invariant.noConfusion

theorem Thread.upheld_set :
    Upheld fun _ t => t.stack.EachSite fun site => site.invariant ≠ .unset := by
  apply upheld_eachSite
  · exact fun set _ => set
  · exact fun _ => Invariant.noConfusion
  · intro catalog vector blocks registered globals instruction access known
    exact classification_ne_unset registered globals vector blocks access

/-- The site of the instruction after an access: what was learned stays if it agrees with what was found. -/
def AccessHook.site (hook : AccessHook) (learned fresh : Invariant) : Site :=
  ⟨hook.instruction, hook.vector, if learned.agrees fresh then learned else fresh⟩

namespace Checker

structure Accessed (c : Checker) (tid : ThreadId) (hook : AccessHook) (learned fresh : Invariant)
    (o : Outcome Unit) : Prop where
  set : (hook.site learned fresh).invariant ≠ .unset
  thread : ∃ t hits sites, c.thread? tid = some t ∧
    o.checker.thread? tid = some (Thread.withTopSites { t with hits := hits } sites) ∧
    t.stack.top.sites.Replaces sites (hook.site learned fresh)
  others : ∀ other, other ≠ tid → o.checker.thread? other = c.thread? other
  rest : o.checker = { c with
    threads := o.checker.threads
    report := o.checker.report
    statistics := o.checker.statistics }
  reported : learned.span?.isSome = true ∧ learned.agrees fresh = false →
    ∃ d : Diagnostic, o.events = [.mismatched tid d.summary] ∧
      o.checker.report = c.report.push c.config.maxDiagnostics d
  silent : ¬(learned.span?.isSome = true ∧ learned.agrees fresh = false) →
    o.events = [] ∧ o.checker.report = c.report
  upgraded : o.checker.statistics.upgraded =
    c.statistics.upgraded + if learned = .unknown ∧ fresh ≠ .unknown then 1 else 0
  /-- The same access once more is passed over, and changes no thread but for its recent hits. -/
  repeated : ∀ env, ∃ again, o.checker.access env tid hook = .ok again ∧ again.events = [] ∧
    again.checker.report = o.checker.report ∧
    ∀ other, (again.checker.thread? other).map Thread.hitless =
      (o.checker.thread? other).map Thread.hitless

variable {c : Checker} {tid : ThreadId} {env : Environment} {hook : AccessHook}

theorem thread?_setThread_other {other : ThreadId} (elsewhere : other ≠ tid) (t : Thread) :
    (c.setThread tid t).thread? other = c.thread? other :=
  thread?_setSlot_other (Ne.symm elsewhere) (some t)

theorem reportVerdict_reported {depth : Nat} {learned fresh : Invariant} {o : Outcome Unit}
    (done : c.reportVerdict env tid depth hook learned fresh = .ok o)
    (differs : learned.span?.isSome = true ∧ learned.agrees fresh = false) :
    ∃ d : Diagnostic, o.events = [.mismatched tid d.summary] ∧
      o.checker.report = c.report.push c.config.maxDiagnostics d := by
  have mismatched := Invariant.judge_eq_mismatched_iff.2 differs
  rcases reportVerdict_ok_iff.1 done with ⟨-, d, -, rfl⟩ | ⟨fits, -⟩
  · exact ⟨d, rfl, rfl⟩
  · contradiction

theorem reportVerdict_silent {depth : Nat} {learned fresh : Invariant} {o : Outcome Unit}
    (done : c.reportVerdict env tid depth hook learned fresh = .ok o)
    (fits : ¬(learned.span?.isSome = true ∧ learned.agrees fresh = false)) :
    o.events = [] ∧ o.checker.report = c.report := by
  rcases reportVerdict_ok_iff.1 done with ⟨mismatched, -⟩ | ⟨-, rfl⟩
  · exact absurd (Invariant.judge_eq_mismatched_iff.1 mismatched) fits
  · exact ⟨rfl, rfl⟩

theorem WellFormed.access_confirmed (wf : c.WellFormed) {t : Thread} {blocks : List StackBlock}
    {learned : Invariant} (there : c.thread? tid = some t)
    (known : c.catalog.vector hook.vector = .ok blocks) (keyed : hook.instruction ≠ 0)
    (stored : t.stack.top.sites.find? hook.instruction =
      some ⟨hook.instruction, hook.vector, learned⟩)
    (set : learned ≠ .unset)
    (agrees : learned.agrees
      (classification t.registered c.globals hook.vector blocks hook.access) = true)
    (env : Environment) :
    ∃ o, c.access env tid hook = .ok o ∧ o.events = [] ∧ o.checker.report = c.report ∧
      ∀ other, (o.checker.thread? other).map Thread.hitless =
        (c.thread? other).map Thread.hitless := by
  have threadWf := wf.threads tid t there
  let r := t.classify c.globals hook.vector blocks hook.access
  obtain ⟨slot, located⟩ := SiteTable.findOrCreate_of_find? keyed stored rfl
  obtain ⟨hits, same, -⟩ :=
    classify_thread threadWf.cached c.globals hook.vector blocks hook.access
  have fresh := @classify_invariant t c.globals hook.vector blocks hook.access
    threadWf.registered threadWf.cached
  have stack := classify_stack t c.globals hook.vector blocks hook.access
  let l : SiteTable.Located :=
    ⟨t.stack.top.sites, slot, ⟨hook.instruction, hook.vector, learned⟩⟩
  have confirmed : learned.judge r.invariant = .confirmed := by
    rw [Invariant.judge_eq set, fresh, if_pos agrees]
  have kept : learned.revised r.invariant = learned := Invariant.revised_confirmed confirmed
  refine ⟨⟨(), c.afterAccess tid r l, []⟩, ?_, rfl, rfl, fun other => ?_⟩
  · refine access_ok_iff.2 ⟨t, blocks, l, there, known, ?_, ?_⟩
    · rw [stack]
      exact located
    · refine reportVerdict_ok_iff.2 (.inr ⟨?_, rfl⟩)
      show learned.judge r.invariant ≠ .mismatched
      rw [confirmed]
      exact Invariant.Verdict.noConfusion
  · by_cases here : other = tid
    · have held := (SiteTable.findOrCreate_ok threadWf.live.top.1 located).held
      have unchanged : l.learn (learned.revised r.invariant) = t.stack.top.sites := by
        rw [kept]
        exact SiteTable.Located.learn_same held
      have after : (c.afterAccess tid r l).thread? tid =
          some (r.thread.withTopSites (l.learn (learned.revised r.invariant))) :=
        thread?_setThread there
      rw [here, after, unchanged, there, same]
      rfl
    · exact congrArg (Option.map Thread.hitless) (thread?_setThread_other here _)

theorem WellFormed.accessed (wf : c.WellFormed) {o : Outcome Unit}
    (done : c.access env tid hook = .ok o) :
    ∃ classified, c.classify tid hook.access hook.vector = .ok classified ∧
      c.Accessed tid hook ((c.learned? tid hook.instruction).getD .unset) classified.value o := by
  have afterWf := wf.access done
  obtain ⟨t, blocks, l, there, known, located, reported⟩ := access_ok_iff.1 done
  refine ⟨_, classify_ok_iff.2 ⟨t, blocks, there, known, rfl⟩, ?_⟩
  have threadWf := wf.threads tid t there
  have keyed := SiteTable.findOrCreate_ne_zero located
  obtain ⟨locates, hits, same, -⟩ := threadWf.learns located
  have found := @classify_invariant t c.globals hook.vector blocks hook.access
    threadWf.registered threadWf.cached
  have knew : (c.learned? tid hook.instruction).getD .unset = l.site.invariant := by
    rw [learned?_eq there, locates.invariant_eq]
  rw [knew]
  dsimp only
  -- From here on it does not matter how the access was classified, with hits or without.
  generalize t.classify c.globals hook.vector blocks hook.access = r at *
  have reporting := reportVerdict_checker reported
  have threads := congrArg Checker.threads reporting
  have statistics := congrArg Checker.statistics reporting
  have set : (hook.site l.site.invariant r.invariant).invariant ≠ .unset :=
    Invariant.revised_ne_unset (found ▸ classification_ne_unset _ _ _ _ _)
  have replaces := locates.replaces threadWf.live.top.1 (l.site.invariant.revised r.invariant)
  have after : o.checker.thread? tid = some (r.thread.withTopSites
      (l.learn (l.site.invariant.revised r.invariant))) :=
    (thread?_congr threads).trans (thread?_setThread there)
  rw [Invariant.revised_eq] at replaces after
  rw [same] at after
  have told := reportVerdict_reported reported
  have quiet := reportVerdict_silent reported
  refine {
    set := set
    thread := ⟨t, hits, _, there, after, replaces⟩
    others := fun other elsewhere =>
      (thread?_congr threads).trans (thread?_setThread_other elsewhere _)
    rest := ?_
    reported := told
    silent := quiet
    upgraded := ?_
    repeated := ?_ }
  · rw [reporting]
    rfl
  · have counted : o.checker.statistics = c.statistics.countAccess r l.site.invariant := statistics
    rw [counted, Statistics.countAccess_eq]
    simp only [Invariant.judge_eq_upgraded_iff]
  · intro again
    -- Where the access was, it is found again, and the site agrees with that by now.
    have globals : o.checker.globals = c.globals := by
      rw [reporting]
      rfl
    have catalog : o.checker.catalog = c.catalog := by
      rw [reporting]
      rfl
    have stored := replaces.find?_eq hook.instruction
    rw [if_pos rfl] at stored
    refine afterWf.access_confirmed after (catalog ▸ known) keyed stored set ?_ again
    rw [globals]
    show Invariant.agrees _ (classification t.registered c.globals _ blocks _) = true
    rw [← found]
    exact Invariant.agrees_revised _ _

/-- Every site that there is has learned something, and an access is learned from at its own site only. -/
theorem Reachable.learning (reachable : c.Reachable) :
    (∀ tid t, c.thread? tid = some t → ∀ depth a, t.stack.get? depth = some a →
      ∀ site ∈ a.sites.sites, site.invariant ≠ .unset) ∧
    ∀ env tid hook o, c.access env tid hook = .ok o →
      ∃ classified, c.classify tid hook.access hook.vector = .ok classified ∧
        c.Accessed tid hook ((c.learned? tid hook.instruction).getD .unset) classified.value o :=
  ⟨reachable.eachThread Thread.upheld_set,
    fun _ _ _ _ done => reachable.wellFormed.accessed done⟩

/-- The byte after the buffer is read twice, which is reported once. -/
theorem learning_sample :
    ∃ o, sample.access sampleEnvironment ⟨0⟩ (sampleHook 0x7ff0) = .ok o ∧
      o.checker.report.total = sample.report.total + 1 ∧
      ∃ again, o.checker.access sampleEnvironment ⟨0⟩ (sampleHook 0x7ff0) = .ok again ∧
        again.events = [] ∧ again.checker.report = o.checker.report := by
  have fine : (sample.access sampleEnvironment ⟨0⟩ (sampleHook 0x7ff0)).isOk = true := by
    decide +kernel
  obtain ⟨o, done⟩ := exists_of_isOk fine
  obtain ⟨classified, found, accessed⟩ := reachable_sample.learning.2 _ _ _ _ done
  have outside : (sample.classify ⟨0⟩ (sampleHook 0x7ff0).access ⟨1⟩).toOption.map (·.value) =
      some .unknown := by decide +kernel
  have fresh : classified.value = .unknown := by
    rw [show sample.classify ⟨0⟩ (sampleHook 0x7ff0).access ⟨1⟩ = .ok classified from found]
      at outside
    exact Option.some.inj outside
  have learned : sample.learned? ⟨0⟩ (sampleHook 0x7ff0).instruction = _ := learned?_sample
  rw [fresh, learned] at accessed
  obtain ⟨d, -, pushed⟩ := accessed.reported ⟨rfl, rfl⟩
  obtain ⟨again, repeated, silent, report, -⟩ := accessed.repeated sampleEnvironment
  refine ⟨o, done, ?_, again, repeated, silent, report⟩
  rw [pushed]
  exact Report.total_push _ _ _

end Checker

end Overrun
