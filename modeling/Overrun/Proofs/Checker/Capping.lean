import Overrun.Proofs.Checker.Refitting

/-! The limit of the report cuts it off and does nothing else. A run goes the same way with and without
it, and what the report holds is the beginning of what it would hold otherwise. -/

namespace Overrun

def Diagnostic.noted (d : Diagnostic) : ThreadId × String :=
  (d.tid, d.summary)

namespace Report

/-- The report with the first `limit` of its diagnostics; the others count as dropped. -/
def capped (limit : Nat) (r : Report) : Report :=
  ⟨r.diagnostics.take limit, r.dropped + (r.diagnostics.length - limit)⟩

theorem capped_empty (limit : Nat) : capped limit ∅ = ∅ := by
  show (⟨[].take limit, 0 + (0 - limit)⟩ : Report) = ⟨[], 0⟩
  rw [List.take_nil, Nat.zero_sub]

theorem total_capped (limit : Nat) (r : Report) : (r.capped limit).total = r.total := by
  unfold total capped
  dsimp only
  rw [List.length_take]
  omega

theorem capped_push {limit : Nat} (room : 0 < limit) (r : Report) (d : Diagnostic) :
    (r.push 0 d).capped limit = (r.capped limit).push limit d := by
  have kept : (r.diagnostics.take limit).length < limit ↔ r.diagnostics.length < limit := by
    rw [List.length_take]
    omega
  unfold push capped
  rw [if_pos (.inl rfl)]
  dsimp only
  rw [List.take_append, List.length_append, List.length_singleton]
  by_cases fits : r.diagnostics.length < limit
  · rw [if_pos (.inr (kept.2 fits)), List.take_of_length_le (i := limit - _) (l := [d])]
    · congr 1
      omega
    · rw [List.length_singleton]
      omega
  · rw [if_neg (not_or.2 ⟨Nat.ne_of_gt room, mt kept.1 fits⟩),
      Nat.sub_eq_zero_of_le (Nat.le_of_not_lt fits), List.take_zero, List.append_nil]
    congr 1
    omega

theorem foldl_push_zero (r : Report) (emitted : List Diagnostic) :
    emitted.foldl (·.push 0 ·) r = ⟨r.diagnostics ++ emitted, r.dropped⟩ := by
  induction emitted generalizing r with
  | nil =>
    rw [List.append_nil]
    rfl
  | cons d rest ih =>
    rw [List.foldl_cons, ih]
    unfold push
    rw [if_pos (.inl rfl), List.append_assoc]
    rfl

end Report

def Refit.capping (limit : Nat) (room : 0 < limit) : Refit where
  settings config := { config with maxDiagnostics := limit }
  report := Report.capped limit
  taken := List.take limit
  Suits config := config.maxDiagnostics = 0
  arraysOnly _ := rfl
  suppressEpilogues _ := rfl
  recentHits _ := rfl
  report_empty := Report.capped_empty limit
  diagnostics_report _ := rfl
  total_report := Report.total_capped limit
  report_push config unlimited r d := by
    rw [unlimited]
    exact Report.capped_push room r d

def Reply.capped (limit : Nat) : Reply → Reply
  | diagnostics taken => diagnostics (taken.take limit)
  | other => other

namespace Checker

def capped (limit : Nat) (c : Checker) : Checker :=
  { c with config := { c.config with maxDiagnostics := limit }, report := c.report.capped limit }

variable {c after : Checker} {env : Environment}

/-- Accesses alone add to the report, and it is handed over alone. -/
theorem WellFormed.step_report (wf : c.WellFormed) {op : Operation} {o : Outcome Reply}
    (elsewhere : ∀ tid hook, op ≠ .access tid hook) (keeps : op ≠ .takeDiagnostics)
    (done : c.step env op = .ok o) : o.checker.report = c.report := by
  have shared : ∀ {last : Checker}, last = c.sharing last → last.report = c.report := by
    intro last kept
    rw [kept]
    rfl
  cases wf.stepped done with
  | @access tid hook => exact absurd rfl (elsewhere tid hook)
  | takeDiagnostics => contradiction
  | createThread | startThread | call | unwind | classify | internVector | summarize => rfl
  | exitThread tid =>
    show (c.exitThread tid).checker.report = c.report
    rcases c.exitThread_eq tid with same | same
    · rw [same]
    · rw [same]
      rfl
  | loadGlobals handle =>
    have registered := fun blocks => shared (registerGlobals_checker c blocks)
    exact registered _
  | unmap region =>
    show (c.unmapped region).report = c.report
    rcases c.unmapped_eq region with same | ⟨range, same⟩
    · rw [same]
    · rw [same]
      rfl
  | vectorAt instruction => exact shared (vectorAt_consulted env c instruction).sharing
  | instrument instrumented =>
    exact shared (instrument_lookedUp instrumented).consulted.sharing

structure Emits (c : Checker) (events : List Event) (emitted : List Diagnostic) (after : Checker) :
    Prop where
  config : after.config = c.config
  noted : Event.mismatches events = emitted.map Diagnostic.noted
  report : after.report = emitted.foldl (·.push c.config.maxDiagnostics ·) c.report

theorem WellFormed.step_emits (wf : c.WellFormed) {op : Operation} {o : Outcome Reply}
    (keeps : op ≠ .takeDiagnostics) (done : c.step env op = .ok o) :
    ∃ emitted, Emits c o.events emitted o.checker := by
  have config := (wf.step_changed done).settings.1
  by_cases access : ∃ tid hook, op = .access tid hook
  · obtain ⟨tid, hook, rfl⟩ := access
    cases wf.stepped done with
    | access found known classified located reported =>
      rcases reportVerdict_ok_iff.1 reported with ⟨-, d, diagnosed, rfl⟩ | ⟨-, rfl⟩
      · refine ⟨[d], config, ?_, rfl⟩
        show [(tid, d.summary)] = [(d.tid, d.summary)]
        rw [diagnose_tid diagnosed]
      · exact ⟨[], config, rfl, rfl⟩
  · have elsewhere : ∀ tid hook, op ≠ .access tid hook :=
      fun tid hook same => access ⟨tid, hook, same⟩
    exact ⟨[], config, wf.step_mismatches elsewhere done, wf.step_report elsewhere keeps done⟩

theorem WellFormed.run_emits (wf : c.WellFormed) {ops : List (Environment × Operation)}
    (keeps : ∀ op ∈ ops, op.2 ≠ .takeDiagnostics) {replies : List Reply}
    (ran : c.run ops = .ok (after, replies)) : ∃ emitted, Emits c (c.log ops) emitted after := by
  induction ops generalizing c replies with
  | nil =>
    cases ran
    exact ⟨[], rfl, rfl, rfl⟩
  | cons first rest ih =>
    obtain ⟨env, op⟩ := first
    obtain ⟨o, stepped, ran⟩ := bind_eq_ok.1 ran
    obtain ⟨⟨last, later⟩, onward, same⟩ := bind_eq_ok.1 ran
    cases same
    obtain ⟨keepsFirst, keepsRest⟩ := List.forall_mem_cons.1 keeps
    obtain ⟨early, now⟩ := wf.step_emits keepsFirst stepped
    obtain ⟨late, next⟩ := ih (wf.step stepped) keepsRest onward
    refine ⟨early ++ late, next.config.trans now.config, ?_, ?_⟩
    · unfold log
      rw [stepped]
      show Event.mismatches (o.events ++ o.checker.log rest) = _
      rw [Event.mismatches_append, now.noted, next.noted, List.map_append]
    · rw [next.report, now.report, now.config, List.foldl_append]

theorem exists_of_run_append {first second : List (Environment × Operation)} {replies : List Reply}
    (ran : c.run (first ++ second) = .ok (after, replies)) :
    ∃ middle early late, c.run first = .ok (middle, early) ∧
      middle.run second = .ok (after, late) := by
  induction first generalizing c replies with
  | nil => exact ⟨c, [], replies, rfl, ran⟩
  | cons op rest ih =>
    obtain ⟨o, stepped, ran⟩ := bind_eq_ok.1 ran
    obtain ⟨⟨last, later⟩, onward, same⟩ := bind_eq_ok.1 ran
    cases same
    obtain ⟨middle, early, late, before, done⟩ := ih onward
    have whole : c.run (op :: rest) = .ok (middle, o.value :: early) :=
      bind_eq_ok.2 ⟨o, stepped, bind_eq_ok.2 ⟨_, before, rfl⟩⟩
    exact ⟨middle, o.value :: early, late, whole, done⟩

/-- Whether all that was reported has been handed over, by the last operation if there was any. -/
def HandsOver (earlier : List (Environment × Operation)) : Prop :=
  earlier = [] ∨ ∃ before env, earlier = before ++ [(env, .takeDiagnostics)]

theorem report_of_handsOver {earlier : List (Environment × Operation)} (handed : HandsOver earlier)
    (start : c.report = ∅) {replies : List Reply} (ran : c.run earlier = .ok (after, replies)) :
    after.report = ∅ := by
  rcases handed with rfl | ⟨before, env, rfl⟩
  · cases ran
    exact start
  · obtain ⟨middle, early, late, -, taken⟩ := exists_of_run_append ran
    cases taken
    rfl

theorem WellFormed.run_capped_of_free (wf : c.WellFormed) (free : c.config.maxDiagnostics = 0)
    {limit : Nat} (room : 0 < limit) (ops : List (Environment × Operation)) :
    (c.capped limit).run ops = (c.run ops).map (fun (last, replies) =>
      (last.capped limit, replies.map (Reply.capped limit))) ∧
    (c.capped limit).log ops = c.log ops := by
  have same : (Refit.capping limit room).reply = Reply.capped limit := by
    funext reply
    cases reply <;> rfl
  rw [← same]
  exact ⟨wf.run_refit (.capping limit room) free ops, wf.log_refit (.capping limit room) free ops⟩

/-- A limit of the report changes nothing but the report. Every run has the same replies and log or the
same fault and ends in the same state, only that what is reported or handed over is cut off. From the
beginning or from a handing over on, the report without a limit holds all that is noted in the log, and
with one it holds the first of them and counts the others: none is dropped while there is room. -/
theorem run_capped (config : Config) (target : Target) {limit : Nat} (room : 0 < limit) :
    let free := initial { config with maxDiagnostics := 0 } target
    let bounded := initial { config with maxDiagnostics := limit } target
    (∀ ops,
      bounded.run ops = (free.run ops).map (fun (c, replies) =>
        (c.capped limit, replies.map (Reply.capped limit))) ∧
      bounded.log ops = free.log ops) ∧
    ∀ earlier since c early after late, HandsOver earlier → (∀ op ∈ since, op.2 ≠ .takeDiagnostics) →
      free.run earlier = .ok (c, early) → c.run since = .ok (after, late) →
      ∃ emitted : List Diagnostic,
        Event.mismatches (c.log since) = emitted.map Diagnostic.noted ∧
        after.report = ⟨emitted, 0⟩ ∧
        ∃ last replies, bounded.run (earlier ++ since) = .ok (last, replies) ∧
          last.report = ⟨emitted.take limit, emitted.length - min limit emitted.length⟩ ∧
          last.report.total = emitted.length ∧
          (last.report.dropped ≠ 0 → last.report.diagnostics.length = limit) := by
  intro free bounded
  have wf : free.WellFormed := wellFormed_initial _ target
  have start : free.capped limit = bounded :=
    congrArg (fun report => { bounded with report := report }) (Report.capped_empty limit)
  have alike := wf.run_capped_of_free rfl room
  rw [start] at alike
  refine ⟨alike, fun earlier since c early after late handed keeps before onward => ?_⟩
  have unlimited : c.config.maxDiagnostics = 0 := by
    rw [(wf.run_settings before).1]
    rfl
  -- The report is empty at `c`, so whatever it holds in the end has come since.
  have cleared := report_of_handsOver handed rfl before
  have reachable := (Reachable.initial _ target).run before
  obtain ⟨emitted, emits⟩ := reachable.wellFormed.run_emits keeps onward
  have whole : after.report = ⟨emitted, 0⟩ := by
    rw [emits.report, unlimited, cleared, Report.foldl_push_zero]
    rfl
  have ran := (alike (earlier ++ since)).1
  rw [run_append before onward] at ran
  have cut : (after.capped limit).report =
      ⟨emitted.take limit, emitted.length - min limit emitted.length⟩ := by
    show after.report.capped limit = _
    rw [whole]
    unfold Report.capped
    dsimp only
    congr 1
    omega
  refine ⟨emitted, emits.noted, whole, after.capped limit, _, ran, cut, ?_, ?_⟩
  · show (after.report.capped limit).total = emitted.length
    rw [Report.total_capped, whole]
    rfl
  · rw [cut]
    dsimp only
    rw [List.length_take]
    omega

/-- Both threads step over the end of the table, one of them twice, and come back to it in between. -/
def strayingOperations : List Operation := [
  .access ⟨0⟩ ⟨0x5040, 0x7f78, 0x7f80, -4, 0x3000, ⟨1⟩⟩,
  .access ⟨1⟩ ⟨0x5000, 0x17f78, 0x17f80, 4, 0x3000, ⟨1⟩⟩,
  .access ⟨1⟩ ⟨0x5040, 0x17f78, 0x17f80, 4, 0x3000, ⟨1⟩⟩,
  .access ⟨0⟩ ⟨0x5000, 0x7f78, 0x7f80, 4, 0x3000, ⟨1⟩⟩,
  .summarize,
  .access ⟨0⟩ ⟨0x5044, 0x7f78, 0x7f80, 4, 0x3000, ⟨1⟩⟩]

theorem run_capped_sample :
    let learning := (interleavedOperations.take 12).map (sampleEnvironment, ·)
    let straying := strayingOperations.map (sampleEnvironment, ·)
    ∃ emitted : List Diagnostic, emitted.map (·.tid) = [⟨0⟩, ⟨1⟩, ⟨0⟩] ∧
      ∃ last replies,
        (initial { interleavedStart.config with maxDiagnostics := 2 } interleavedStart.target).run
          (learning ++ straying) = .ok (last, replies) ∧
        last.report = ⟨emitted.take 2, 1⟩ := by
  intro learning straying
  have handed : HandsOver learning :=
    .inr ⟨(interleavedOperations.take 11).map (sampleEnvironment, ·), sampleEnvironment, rfl⟩
  have keeps : ∀ op ∈ straying, op.2 ≠ .takeDiagnostics :=
    List.forall_mem_map.2 (by decide +kernel)
  obtain ⟨early, before⟩ := interleavedStart.run_reached learning (by decide +kernel)
  obtain ⟨late, onward⟩ := (interleavedStart.reached learning).run_reached straying (by decide +kernel)
  have capped := run_capped interleavedStart.config interleavedStart.target Nat.zero_lt_two
  obtain ⟨emitted, noted, -, last, replies, ran, cut, -⟩ :=
    capped.2 learning straying _ early _ late handed keeps before onward
  have threads : (Event.mismatches ((interleavedStart.reached learning).log straying)).map Prod.fst =
      [⟨0⟩, ⟨1⟩, ⟨0⟩] := by decide +kernel
  rw [noted, List.map_map] at threads
  have three : emitted.length = 3 := by
    have counted := congrArg List.length threads
    rw [List.length_map] at counted
    exact counted
  rw [three] at cut
  exact ⟨emitted, threads, last, replies, ran, cut⟩

end Checker

end Overrun
