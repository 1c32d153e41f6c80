import Overrun.Proofs.Checker.Effects
import Overrun.Proofs.Checker.Reachable
import Overrun.Proofs.Checker.Sharing

/-! What a thread does is nothing to the others. Without the operations of all other threads a run still
comes to an end, and the thread, the globals and the diagnostics of the thread are the same. -/

namespace Overrun

def Operation.thread? : Operation → Option ThreadId
  | createThread _ child => some child
  | startThread tid _ | exitThread tid | call tid _ | unwind tid _ | access tid _
  | classify tid _ _ => some tid
  | loadGlobals _ | unmap _ | internVector _ | vectorAt _ | instrument .. | takeDiagnostics
  | summarize => none

def Operation.concerns (tid : ThreadId) (op : Operation) : Bool :=
  op.thread?.all (· == tid)

theorem Operation.concerns_eq_false_iff {tid : ThreadId} {op : Operation} :
    op.concerns tid = false ↔ ∃ other, op.thread? = some other ∧ other ≠ tid := by
  unfold concerns
  cases op.thread? <;> simp

def Reply.taken : Reply → List Diagnostic
  | diagnostics taken => taken
  | _ => []

namespace Diagnostic

def of (tid : ThreadId) (diagnostics : List Diagnostic) : List Diagnostic :=
  diagnostics.filter (·.tid == tid)

theorem of_append (tid : ThreadId) (first second : List Diagnostic) :
    of tid (first ++ second) = of tid first ++ of tid second :=
  List.filter_append ..

theorem of_push (tid : ThreadId) (r : Report) (d : Diagnostic) :
    of tid (r.push 0 d).diagnostics =
      of tid r.diagnostics ++ if d.tid = tid then [d] else [] := by
  unfold Report.push
  rw [if_pos (.inl rfl)]
  dsimp only
  rw [of_append]
  congr 1
  by_cases own : d.tid = tid
  · simp [of, own]
  · simp [of, own]

end Diagnostic

namespace Checker

/-- Whether two checkers are the same but for threads other than `tid`, for the counters, and for what
is reported of the other threads. What is reported counts only if all of it is kept. -/
structure Alike (tid : ThreadId) (c d : Checker) : Prop where
  config : d.config = c.config
  target : d.target = c.target
  slots : d.threads.length = c.threads.length
  thread : d.thread? tid = c.thread? tid
  catalog : d.catalog = c.catalog
  vectors : d.vectors = c.vectors
  globals : d.globals = c.globals
  overlapWarnings : d.overlapWarnings = c.overlapWarnings
  told : c.config.maxDiagnostics = 0 →
    Diagnostic.of tid d.report.diagnostics = Diagnostic.of tid c.report.diagnostics

variable {c d e : Checker} {tid : ThreadId} {env : Environment}

namespace Alike

theorem refl (tid : ThreadId) (c : Checker) : Alike tid c c :=
  ⟨rfl, rfl, rfl, rfl, rfl, rfl, rfl, rfl, fun _ => rfl⟩

theorem symm (alike : Alike tid c d) : Alike tid d c where
  config := alike.config.symm
  target := alike.target.symm
  slots := alike.slots.symm
  thread := alike.thread.symm
  catalog := alike.catalog.symm
  vectors := alike.vectors.symm
  globals := alike.globals.symm
  overlapWarnings := alike.overlapWarnings.symm
  told unlimited := (alike.told (alike.config ▸ unlimited)).symm

theorem trans (first : Alike tid c d) (second : Alike tid d e) : Alike tid c e where
  config := second.config.trans first.config
  target := second.target.trans first.target
  slots := second.slots.trans first.slots
  thread := second.thread.trans first.thread
  catalog := second.catalog.trans first.catalog
  vectors := second.vectors.trans first.vectors
  globals := second.globals.trans first.globals
  overlapWarnings := second.overlapWarnings.trans first.overlapWarnings
  told unlimited := (second.told (first.config ▸ unlimited)).trans (first.told unlimited)

theorem shared (alike : Alike tid c d) : d.sharing c = d := by
  unfold Checker.sharing
  rw [← alike.catalog, ← alike.vectors, ← alike.globals, ← alike.overlapWarnings]

end Alike

theorem thread?_setSlot_other {other : ThreadId} (elsewhere : other ≠ tid)
    (slot : Option Thread) : (c.setSlot other slot).thread? tid = c.thread? tid := by
  rw [thread?_setSlot, if_neg]
  rintro ⟨same, -⟩
  exact elsewhere (congrArg ThreadId.mk same)

theorem alike_setSlot {other : ThreadId} (elsewhere : other ≠ tid) (slot : Option Thread)
    (statistics : Statistics) :
    Alike tid c { c.setSlot other slot with statistics := statistics } :=
  { Alike.refl tid c with
    slots := List.length_set ..
    thread := thread?_setSlot_other elsewhere slot }

theorem diagnose_tid {depth : Nat} {hook : AccessHook} {learned fresh : Invariant}
    {d : Diagnostic} (diagnosed : c.diagnose env tid depth hook learned fresh = .ok d) :
    d.tid = tid := by
  unfold diagnose at diagnosed
  obtain ⟨expected, -, diagnosed⟩ := bind_eq_ok.1 diagnosed
  obtain ⟨actual, -, diagnosed⟩ := bind_eq_ok.1 diagnosed
  cases diagnosed
  cases learned.span? <;> rfl

theorem reportVerdict_other {other : ThreadId} (elsewhere : other ≠ tid) {depth : Nat}
    {hook : AccessHook} {learned fresh : Invariant} {o : Outcome Unit}
    (done : c.reportVerdict env other depth hook learned fresh = .ok o) :
    Alike tid c o.checker := by
  rcases reportVerdict_ok_iff.1 done with ⟨-, d, diagnosed, rfl⟩ | ⟨-, rfl⟩
  · refine { Alike.refl tid c with told := fun unlimited => ?_ }
    dsimp only
    rw [unlimited, Diagnostic.of_push, diagnose_tid diagnosed, if_neg elsewhere, List.append_nil]
  · exact .refl tid c

theorem WellFormed.step_other (wf : c.WellFormed) {op : Operation} {o : Outcome Reply}
    (foreign : op.concerns tid = false) (done : c.step env op = .ok o) :
    Alike tid c o.checker ∧ o.value.taken = [] := by
  obtain ⟨other, named, elsewhere⟩ := Operation.concerns_eq_false_iff.1 foreign
  cases wf.stepped done with
  | createThread | startThread | call | unwind | classify =>
    cases named
    exact ⟨alike_setSlot elsewhere _ _, rfl⟩
  | exitThread other =>
    cases named
    refine ⟨?_, rfl⟩
    show Alike tid c (c.exitThread other).checker
    rcases c.exitThread_eq other with same | same
    · rw [same]
      exact .refl tid c
    · rw [same]
      exact alike_setSlot elsewhere none c.statistics
  | access found known classified located reported =>
    cases named
    exact ⟨(alike_setSlot elsewhere _ _).trans (reportVerdict_other elsewhere reported), rfl⟩
  | _ => contradiction

namespace Alike

theorem rules (alike : Alike tid c d) : SameRules c d :=
  ⟨alike.target, congrArg Config.arraysOnly alike.config,
    congrArg Config.suppressEpilogues alike.config⟩

theorem setSlot (alike : Alike tid c d) (slot : Option Thread) (s₁ s₂ : Statistics) :
    Alike tid { c.setSlot tid slot with statistics := s₁ }
      { d.setSlot tid slot with statistics := s₂ } := by
  refine { alike with slots := ?_, thread := ?_ }
  · unfold Checker.setSlot
    dsimp only
    rw [List.length_set, List.length_set, alike.slots]
  · show (d.setSlot tid slot).thread? tid = (c.setSlot tid slot).thread? tid
    rw [thread?_setSlot, thread?_setSlot, alike.slots, alike.thread]

theorem sharing (alike : Alike tid c d) (after : Checker) :
    Alike tid (c.sharing after) (d.sharing after) :=
  { alike with catalog := rfl, vectors := rfl, globals := rfl, overlapWarnings := rfl }

theorem withStatistics (alike : Alike tid c d) (s₁ s₂ : Statistics) :
    Alike tid { c with statistics := s₁ } { d with statistics := s₂ } :=
  { alike with }

theorem diagnose (alike : Alike tid c d) (depth : Nat) (hook : AccessHook)
    (learned fresh : Invariant) :
    d.diagnose env tid depth hook learned fresh = c.diagnose env tid depth hook learned fresh := by
  unfold Checker.diagnose
  rw [alike.catalog]

theorem afterAccess (alike : Alike tid c d) (r : Thread.Classified) (l : SiteTable.Located) :
    Alike tid (c.afterAccess tid r l) (d.afterAccess tid r l) :=
  alike.setSlot _ _ _

theorem reportVerdict (alike : Alike tid c d) {depth : Nat} {hook : AccessHook}
    {learned fresh : Invariant} {o : Outcome Unit}
    (done : c.reportVerdict env tid depth hook learned fresh = .ok o) :
    ∃ p, d.reportVerdict env tid depth hook learned fresh = .ok p ∧
      Alike tid o.checker p.checker := by
  rcases reportVerdict_ok_iff.1 done with ⟨mismatched, g, diagnosed, rfl⟩ | ⟨fits, rfl⟩
  · rw [← alike.diagnose] at diagnosed
    refine ⟨_, reportVerdict_ok_iff.2 (.inl ⟨mismatched, g, diagnosed, rfl⟩), ?_⟩
    refine { alike with told := fun unlimited => ?_ }
    dsimp only at unlimited ⊢
    rw [alike.config, unlimited, Diagnostic.of_push, Diagnostic.of_push, alike.told unlimited]
  · exact ⟨_, reportVerdict_ok_iff.2 (.inr ⟨fits, rfl⟩), alike⟩

theorem afterUnmap (alike : Alike tid c d) (range : Interval) :
    Alike tid (c.afterUnmap range) (d.afterUnmap range) := by
  refine { alike with slots := ?_, thread := ?_, globals := ?_ }
  · unfold Checker.afterUnmap
    dsimp only
    rw [List.length_map, List.length_map, alike.slots]
  · rw [thread?_afterUnmap, thread?_afterUnmap, alike.thread, alike.globals]
  · unfold Checker.afterUnmap
    dsimp only
    rw [alike.globals]

theorem unmapped (alike : Alike tid c d) (region : Span) :
    Alike tid (c.unmapped region) (d.unmapped region) := by
  unfold Checker.unmapped
  cases Interval.clamped? region.start region.size with
  | none => exact alike
  | some range =>
    dsimp only
    rw [alike.globals]
    split
    · exact alike
    · exact alike.afterUnmap range

theorem afterLoad (alike : Alike tid c d) (blocks : List GlobalBlock) :
    Alike tid (c.afterLoad blocks) (d.afterLoad blocks) := by
  have registered := @registerGlobals_sharing c d blocks
  rw [alike.shared] at registered
  have same := alike.sharing (c.registerGlobals blocks).checker
  rw [← registerGlobals_checker c blocks] at same
  unfold Checker.afterLoad
  rw [registered]
  exact same.withStatistics _ _

theorem within {α : Type} (alike : Alike tid c d) {o : Outcome α}
    (kept : o.checker = c.sharing o.checker) : Alike tid o.checker (o.within d).checker := by
  have same := alike.sharing o.checker
  rw [← kept] at same
  exact same

end Alike

/-- Whether a reply is the same to a thread, which gets its own diagnostics and counts nothing. -/
def Likewise (tid : ThreadId) (o p : Outcome Reply) : Prop :=
  Alike tid o.checker p.checker ∧
    (o.checker.config.maxDiagnostics = 0 →
      Diagnostic.of tid p.value.taken = Diagnostic.of tid o.value.taken)

theorem Alike.step (alike : Alike tid c d) (wf : c.WellFormed) (other : d.WellFormed)
    {op : Operation} {o : Outcome Reply} (own : op.concerns tid = true)
    (done : c.step env op = .ok o) : ∃ p, d.step env op = .ok p ∧ Likewise tid o p := by
  cases wf.stepped done with
  | createThread parent room =>
    cases beq_iff_eq.1 own
    rw [← alike.slots] at room
    refine ⟨_, map_eq_ok.2 ⟨_, createThread_ok_iff.2 ⟨room, rfl⟩, rfl⟩, ?_, fun _ => rfl⟩
    rw [alike.config]
    exact alike.setSlot _ _ _
  | startThread found sp =>
    cases beq_iff_eq.1 own
    rw [← alike.thread] at found
    exact ⟨_, map_eq_ok.2 ⟨_, startThread_ok_iff.2 ⟨_, found, rfl⟩, rfl⟩,
      alike.setSlot _ _ _, fun _ => rfl⟩
  | exitThread tid =>
    cases beq_iff_eq.1 own
    refine ⟨_, rfl, ?_, fun _ => rfl⟩
    show Alike tid (c.exitThread tid).checker (d.exitThread tid).checker
    unfold Checker.exitThread
    rw [alike.thread]
    cases c.thread? tid with
    | none => exact alike
    | some t => exact alike.setSlot _ _ _
  | call found known calling =>
    cases beq_iff_eq.1 own
    rw [← alike.thread] at found
    rw [← alike.catalog] at known
    exact ⟨_, map_eq_ok.2 ⟨_, other.call_ok_iff.2 ⟨_, _, _, found, known, calling, rfl⟩, rfl⟩,
      alike.setSlot _ _ _, fun _ => rfl⟩
  | unwind found unwinding =>
    cases beq_iff_eq.1 own
    rw [← alike.thread] at found
    exact ⟨_, map_eq_ok.2 ⟨_, other.unwind_ok_iff.2 ⟨_, _, found, unwinding, rfl⟩, rfl⟩,
      alike.setSlot _ _ _, fun _ => rfl⟩
  | access found known classified located reported =>
    cases beq_iff_eq.1 own
    subst classified
    rw [← alike.thread] at found
    rw [← alike.catalog] at known
    rw [← alike.globals] at located reported
    obtain ⟨p, again, same⟩ := (alike.afterAccess _ _).reportVerdict reported
    exact ⟨_, map_eq_ok.2 ⟨p, access_ok_iff.2 ⟨_, _, _, found, known, located, again⟩, rfl⟩,
      same, fun _ => rfl⟩
  | classify access found known =>
    cases beq_iff_eq.1 own
    rw [← alike.thread] at found
    rw [← alike.catalog] at known
    refine ⟨_, map_eq_ok.2 ⟨_, classify_ok_iff.2 ⟨_, _, found, known, rfl⟩, rfl⟩, ?_, fun _ => rfl⟩
    rw [alike.globals]
    exact alike.setSlot _ _ _
  -- What the operations from here on do is of no thread, so both checkers do it.
  | loadGlobals handle =>
    obtain ⟨events, again⟩ := other.loadGlobals_ok env handle
    refine ⟨_, map_eq_ok.2 ⟨_, again, rfl⟩, ?_, fun _ => rfl⟩
    rw [alike.config]
    exact alike.afterLoad _
  | unmap region =>
    obtain ⟨events, again⟩ := other.unmap_ok region
    exact ⟨_, map_eq_ok.2 ⟨_, again, rfl⟩, alike.unmapped region, fun _ => rfl⟩
  | internVector blocks =>
    have again : d.internVector blocks =
        ((c.internVector blocks).1, d.sharing (c.internVector blocks).2) := by
      rw [← alike.shared]
      rfl
    refine ⟨⟨.vector (c.internVector blocks).1, d.sharing (c.internVector blocks).2, []⟩, ?_,
      alike.sharing (c.internVector blocks).2, fun _ => rfl⟩
    unfold Checker.step
    dsimp only
    rw [again]
  | vectorAt instruction =>
    have again := vectorAt_sharing env alike.rules instruction
    rw [alike.shared] at again
    refine ⟨((c.vectorAt env instruction).within d).map .vector, ?_, ?_, fun _ => rfl⟩
    · rw [← again]
      rfl
    · exact alike.within (vectorAt_consulted env c instruction).sharing
  | @instrument block layout hooks result instrumented =>
    have again := instrument_sharing env alike.rules block layout hooks
    rw [alike.shared, instrumented] at again
    refine ⟨_, ?_, alike.within (instrument_lookedUp instrumented).consulted.sharing, fun _ => rfl⟩
    unfold Checker.step
    dsimp only
    rw [again]
    rfl
  | takeDiagnostics => exact ⟨_, rfl, { alike with told := fun _ => rfl }, alike.told⟩
  | summarize => exact ⟨_, rfl, alike, fun _ => rfl⟩

theorem settings_of_sharing {after : Checker} (kept : after = c.sharing after) :
    after.config = c.config ∧ after.target = c.target := by
  rw [kept]
  exact ⟨rfl, rfl⟩

theorem Changed.settings {after : Checker} (changed : Changed env c after) :
    after.config = c.config ∧ after.target = c.target := by
  cases changed with
  | thread tid slot statistics report => exact ⟨rfl, rfl⟩
  | load blocks =>
    have registered := settings_of_sharing (registerGlobals_checker c blocks)
    exact registered
  | unmap range => exact ⟨rfl, rfl⟩
  | intern blocks => exact ⟨rfl, rfl⟩
  | consult found => exact settings_of_sharing found.consulted.sharing
  | report report => exact ⟨rfl, rfl⟩

theorem WellFormed.run_settings (wf : c.WellFormed) {ops : List (Environment × Operation)}
    {after : Checker} {replies : List Reply} (ran : c.run ops = .ok (after, replies)) :
    after.config = c.config ∧ after.target = c.target := by
  induction ops generalizing c replies with
  | nil =>
    cases ran
    exact ⟨rfl, rfl⟩
  | cons first rest ih =>
    obtain ⟨o, done, finished⟩ := bind_eq_ok.1 ran
    obtain ⟨⟨last, later⟩, onward, same⟩ := bind_eq_ok.1 finished
    cases same
    obtain ⟨config, target⟩ := (wf.step_changed done).settings
    obtain ⟨lastConfig, lastTarget⟩ := ih (wf.step done) onward
    exact ⟨lastConfig.trans config, lastTarget.trans target⟩

theorem Alike.run (alike : Alike tid c d) (wf : c.WellFormed) (other : d.WellFormed)
    {ops : List (Environment × Operation)} {after : Checker} {replies : List Reply}
    (ran : c.run ops = .ok (after, replies)) :
    ∃ alone kept, d.run (ops.filter fun (_, op) => op.concerns tid) = .ok (alone, kept) ∧
      Alike tid after alone ∧
      (c.config.maxDiagnostics = 0 → Diagnostic.of tid (kept.flatMap Reply.taken) =
        Diagnostic.of tid (replies.flatMap Reply.taken)) := by
  induction ops generalizing c d replies with
  | nil =>
    cases ran
    exact ⟨d, [], rfl, alike, fun _ => rfl⟩
  | cons first rest ih =>
    obtain ⟨env, op⟩ := first
    obtain ⟨o, done, finished⟩ := bind_eq_ok.1 ran
    obtain ⟨⟨last, later⟩, onward, same⟩ := bind_eq_ok.1 finished
    cases same
    have config := (wf.step_changed done).settings.1
    cases own : op.concerns tid with
    | true =>
      obtain ⟨p, again, next, taken⟩ := alike.step wf other own done
      obtain ⟨alone, kept, runs, ends, told⟩ := ih next (wf.step done) (other.step again) onward
      rw [config] at taken told
      rw [List.filter_cons_of_pos (a := (env, op)) own]
      refine ⟨alone, p.value :: kept, ?_, ends, fun unlimited => ?_⟩
      · exact bind_eq_ok.2 ⟨p, again, bind_eq_ok.2 ⟨_, runs, rfl⟩⟩
      · rw [List.flatMap_cons, List.flatMap_cons, Diagnostic.of_append, Diagnostic.of_append,
          taken unlimited, told unlimited]
    | false =>
      obtain ⟨next, nothing⟩ := wf.step_other own done
      obtain ⟨alone, kept, runs, ends, told⟩ := ih (next.symm.trans alike) (wf.step done) other onward
      rw [config] at told
      rw [List.filter_cons_of_neg (a := (env, op)) (Bool.eq_false_iff.1 own)]
      refine ⟨alone, kept, runs, ends, fun unlimited => ?_⟩
      rw [List.flatMap_cons, nothing, List.nil_append]
      exact told unlimited

/-- Without the operations of the other threads a run has a result just as well. The thread, the globals
and, if all are kept, the diagnostics of the thread are the same in the end, and so are those handed
over on the way. -/
theorem run_isolated {config : Config} {target : Target} {ops : List (Environment × Operation)}
    {c : Checker} {replies : List Reply} (ran : (initial config target).run ops = .ok (c, replies))
    (tid : ThreadId) :
    ∃ alone kept,
      (initial config target).run (ops.filter fun (_, op) => op.concerns tid) = .ok (alone, kept) ∧
      alone.thread? tid = c.thread? tid ∧
      alone.globals = c.globals ∧
      (config.maxDiagnostics = 0 →
        Diagnostic.of tid (kept.flatMap Reply.taken) =
          Diagnostic.of tid (replies.flatMap Reply.taken) ∧
        Diagnostic.of tid alone.report.diagnostics = Diagnostic.of tid c.report.diagnostics) := by
  have start := wellFormed_initial config target
  obtain ⟨alone, kept, runs, ends, told⟩ := (Alike.refl tid _).run start start ran
  refine ⟨alone, kept, runs, ends.thread, ends.globals, fun unlimited => ⟨told unlimited, ?_⟩⟩
  apply ends.told
  rw [(start.run_settings ran).1]
  exact unlimited

/-- Two threads go through the same table, and each steps over its end. -/
def interleavedOperations : List Operation := [
  .createThread none ⟨0⟩,
  .createThread (some ⟨0⟩) ⟨1⟩,
  .startThread ⟨0⟩ 0x8000,
  .startThread ⟨1⟩ 0x18000,
  .internVector [⟨-32, 16, false, true, "buffer"⟩],
  .internVector [],
  .loadGlobals 1,
  .call ⟨1⟩ ⟨0x17f80, 0x17f78, 0x18000, 0x1005, ⟨0⟩⟩,
  .access ⟨0⟩ ⟨0x5000, 0x7f78, 0x7f80, 4, 0x3000, ⟨1⟩⟩,
  .access ⟨1⟩ ⟨0x5000, 0x17f78, 0x17f80, 4, 0x3000, ⟨1⟩⟩,
  .access ⟨1⟩ ⟨0x5040, 0x17f78, 0x17f80, 4, 0x3000, ⟨1⟩⟩,
  .takeDiagnostics,
  .access ⟨0⟩ ⟨0x5040, 0x7f78, 0x7f80, -4, 0x3000, ⟨1⟩⟩,
  .unwind ⟨1⟩ 0x17f80,
  .access ⟨1⟩ ⟨0x5000, 0x17f78, 0x17f80, 4, 0x3000, ⟨1⟩⟩,
  .exitThread ⟨1⟩]

def interleavedStart : Checker :=
  initial { Config.ofLevel .paranoid with maxThreads := 2 } ⟨.amd64, .linux, .gnu⟩

theorem run_isolated_sample :
    ∃ c replies alone kept,
      interleavedStart.run (interleavedOperations.map (sampleEnvironment, ·)) = .ok (c, replies) ∧
      interleavedStart.run ((interleavedOperations.map (sampleEnvironment, ·)).filter
        fun (_, op) => op.concerns ⟨0⟩) = .ok (alone, kept) ∧
      alone.thread? ⟨0⟩ = c.thread? ⟨0⟩ ∧
      alone.globals = c.globals ∧
      Diagnostic.of ⟨0⟩ (kept.flatMap Reply.taken) =
        Diagnostic.of ⟨0⟩ (replies.flatMap Reply.taken) ∧
      Diagnostic.of ⟨0⟩ alone.report.diagnostics = Diagnostic.of ⟨0⟩ c.report.diagnostics := by
  have finishes : (interleavedStart.run
      (interleavedOperations.map (sampleEnvironment, ·))).isOk = true := by decide +kernel
  obtain ⟨⟨c, replies⟩, ran⟩ := exists_of_isOk finishes
  obtain ⟨alone, kept, runs, thread, globals, told⟩ := run_isolated ran ⟨0⟩
  exact ⟨c, replies, alone, kept, ran, runs, thread, globals, told rfl⟩

end Checker

end Overrun
