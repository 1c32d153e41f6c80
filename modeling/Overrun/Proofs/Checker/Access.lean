import Overrun.Proofs.Checker.WellFormed

/-! An access is classified, what its instruction has learned is revised, and a diagnostic is added if
the two did not agree. Nothing else of the checker changes. -/

namespace Overrun

def Statistics.countAccess (s : Statistics) (r : Thread.Classified) (learned : Invariant) :
    Statistics :=
  let searched := { s with
    queries := s.queries + r.lookup.queries
    misses := s.misses + r.lookup.misses
    accesses := s.accesses + 1 }
  (searched.countKind r.invariant.kind).countVerdict (learned.judge r.invariant)

theorem Statistics.countAccess_eq (s : Statistics) (r : Thread.Classified) (learned : Invariant) :
    s.countAccess r learned = { s with
      accesses := s.accesses + 1
      ownFrame := s.ownFrame + if r.invariant.kind = .ownFrame then 1 else 0
      callerFrame := s.callerFrame + if r.invariant.kind = .callerFrame then 1 else 0
      global := s.global + if r.invariant.kind = .global then 1 else 0
      unknown := s.unknown + if r.invariant.kind = .unknown then 1 else 0
      upgraded := s.upgraded + if learned.judge r.invariant = .upgraded then 1 else 0
      mismatched := s.mismatched + if learned.judge r.invariant = .mismatched then 1 else 0
      queries := s.queries + r.lookup.queries
      misses := s.misses + r.lookup.misses } := by
  unfold countAccess countVerdict countKind
  cases learned.judge r.invariant <;> cases r.invariant.kind <;> rfl

theorem Statistics.countAccess_mismatched (s : Statistics) (r : Thread.Classified)
    (learned : Invariant) :
    (s.countAccess r learned).mismatched =
      s.mismatched + if learned.judge r.invariant = .mismatched then 1 else 0 := by
  rw [countAccess_eq]

namespace Checker

variable {c : Checker} {tid : ThreadId}

def afterClassify (c : Checker) (tid : ThreadId) (r : Thread.Classified) : Checker :=
  { c.setThread tid r.thread with
    statistics := { c.statistics with
      queries := c.statistics.queries + r.lookup.queries
      misses := c.statistics.misses + r.lookup.misses } }

/-- The state after an access, before anything is reported. -/
def afterAccess (c : Checker) (tid : ThreadId) (r : Thread.Classified) (l : SiteTable.Located) :
    Checker :=
  let learned := l.site.invariant
  { c.setThread tid (r.thread.withTopSites (l.learn (learned.revised r.invariant))) with
    statistics := c.statistics.countAccess r learned }

theorem classify_eq (c : Checker) (tid : ThreadId) (access : Access) (vector : VectorRef) :
    c.classify tid access vector = (do
      let t ← c.thread tid
      let blocks ← c.catalog.vector vector
      let r := t.classify c.globals vector blocks access
      return ⟨r.invariant, c.afterClassify tid r, []⟩) :=
  rfl

theorem setThread_setThread (c : Checker) (tid : ThreadId) (first second : Thread) :
    (c.setThread tid first).setThread tid second = c.setThread tid second := by
  unfold setThread setSlot
  simp only [List.set_set]

theorem access_eq (env : Environment) (c : Checker) (tid : ThreadId) (hook : AccessHook) :
    c.access env tid hook = (do
      let t ← c.thread tid
      let blocks ← c.catalog.vector hook.vector
      let r := t.classify c.globals hook.vector blocks hook.access
      let l ← r.thread.stack.top.sites.findOrCreate hook.instruction hook.vector
      (c.afterAccess tid r l).reportVerdict env tid r.thread.depth hook l.site.invariant
        r.invariant) := by
  unfold access
  rw [classify_eq]
  cases found : c.thread tid with
  | error fault => rfl
  | ok t =>
    cases c.catalog.vector hook.vector with
    | error fault => rfl
    | ok blocks =>
      let r := t.classify c.globals hook.vector blocks hook.access
      have kept : (c.afterClassify tid r).thread tid = .ok r.thread :=
        thread_eq_ok_iff.2 (thread?_setThread (thread_eq_ok_iff.1 found))
      show ((c.afterClassify tid r).thread tid >>= _) = _
      rw [kept]
      show (r.thread.stack.top.sites.findOrCreate hook.instruction hook.vector >>= _) = _
      congr 1
      funext l
      have collapse := setThread_setThread c tid r.thread
        (r.thread.withTopSites (l.learn (l.site.invariant.revised r.invariant)))
      unfold afterAccess
      dsimp only
      rw [← collapse]
      rfl

theorem access_ok_iff {env : Environment} {hook : AccessHook} {o : Outcome Unit} :
    c.access env tid hook = .ok o ↔
      ∃ t blocks l, c.thread? tid = some t ∧ c.catalog.vector hook.vector = .ok blocks ∧
        let r := t.classify c.globals hook.vector blocks hook.access
        r.thread.stack.top.sites.findOrCreate hook.instruction hook.vector = .ok l ∧
        (c.afterAccess tid r l).reportVerdict env tid r.thread.depth hook l.site.invariant
          r.invariant = .ok o := by
  rw [access_eq]
  constructor
  · intro done
    obtain ⟨t, found, done⟩ := bind_eq_ok.1 done
    obtain ⟨blocks, known, done⟩ := bind_eq_ok.1 done
    obtain ⟨l, located, reported⟩ := bind_eq_ok.1 done
    exact ⟨t, blocks, l, thread_eq_ok_iff.1 found, known, located, reported⟩
  · rintro ⟨t, blocks, l, found, known, located, reported⟩
    refine bind_eq_ok.2 ⟨t, thread_eq_ok_iff.2 found, bind_eq_ok.2 ⟨blocks, known, ?_⟩⟩
    exact bind_eq_ok.2 ⟨l, located, reported⟩

theorem reportVerdict_ok_iff {env : Environment} {depth : Nat} {hook : AccessHook}
    {learned fresh : Invariant} {o : Outcome Unit} :
    c.reportVerdict env tid depth hook learned fresh = .ok o ↔
    (learned.judge fresh = .mismatched ∧ ∃ d, c.diagnose env tid depth hook learned fresh = .ok d ∧
      o = ⟨(), { c with report := c.report.push c.config.maxDiagnostics d },
        [.mismatched tid d.summary]⟩) ∨
    (learned.judge fresh ≠ .mismatched ∧ o = ⟨(), c, []⟩) := by
  unfold reportVerdict
  cases learned.judge fresh with
  | mismatched =>
    constructor
    · intro done
      obtain ⟨d, diagnosed, done⟩ := bind_eq_ok.1 done
      exact .inl ⟨rfl, d, diagnosed, (Except.ok.inj done).symm⟩
    · rintro (⟨-, d, diagnosed, rfl⟩ | ⟨fits, -⟩)
      · exact bind_eq_ok.2 ⟨d, diagnosed, rfl⟩
      · contradiction
  | _ => simp [eq_comm]

theorem reportVerdict_keeps {env : Environment} {depth : Nat} {hook : AccessHook}
    {learned fresh : Invariant} {o : Outcome Unit}
    (done : c.reportVerdict env tid depth hook learned fresh = .ok o) :
    o.checker.globals = c.globals ∧ o.checker.threads = c.threads ∧
      o.checker.statistics = c.statistics := by
  rcases reportVerdict_ok_iff.1 done with ⟨-, d, -, rfl⟩ | ⟨-, rfl⟩
  · exact ⟨rfl, rfl, rfl⟩
  · exact ⟨rfl, rfl, rfl⟩

theorem WellFormed.classify (wf : c.WellFormed) {access : Access} {vector : VectorRef}
    {o : Outcome Invariant} (done : c.classify tid access vector = .ok o) :
    o.checker.WellFormed := by
  rw [classify_eq] at done
  obtain ⟨t, found, done⟩ := bind_eq_ok.1 done
  obtain ⟨blocks, known, done⟩ := bind_eq_ok.1 done
  cases done
  exact (wf.setThread tid ((wf.thread found).classify vector blocks access)).congr rfl rfl

theorem learnAccess_wellFormed {globals : IntervalMap GlobalRef} {t : Thread}
    (wf : t.WellFormed globals) {vector : VectorRef} {blocks : List StackBlock} {access : Access}
    {r : Thread.Classified} (classified : t.classify globals vector blocks access = r)
    {instruction : UInt64} {l : SiteTable.Located}
    (located : r.thread.stack.top.sites.findOrCreate instruction vector = .ok l) :
    Thread.WellFormed globals
      (r.thread.withTopSites (l.learn (l.site.invariant.revised r.invariant))) := by
  have fresh := wf.classify_live vector blocks access
  obtain ⟨hits, same, cached⟩ := classify_thread wf.cached globals vector blocks access
  rw [classified] at fresh same
  rw [same] at located ⊢
  apply (wf.withHits cached).withTopSites
  have top := wf.live.top
  have known := SiteTable.findOrCreate_ok top.1 located
  apply top.learn known
  rcases l.site.invariant.revised_eq_or r.invariant with kept | new
  · rw [kept]
    exact top.located known
  · rw [new]
    exact fresh

theorem WellFormed.access (wf : c.WellFormed) {env : Environment} {hook : AccessHook}
    {o : Outcome Unit} (done : c.access env tid hook = .ok o) : o.checker.WellFormed := by
  obtain ⟨t, blocks, l, found, -, located, reported⟩ := access_ok_iff.1 done
  obtain ⟨globals, threads, -⟩ := reportVerdict_keeps reported
  have threadWf := learnAccess_wellFormed (wf.threads tid t found) rfl located
  exact (wf.setThread tid threadWf).congr globals threads

end Checker

end Overrun
