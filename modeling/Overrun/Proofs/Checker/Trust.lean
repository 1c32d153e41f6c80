import Overrun.Proofs.Checker.Faulting
import Overrun.Proofs.Checker.Insertion
import Overrun.Proofs.Checker.Sharing
import Overrun.Proofs.Thread.Sites

/-! Code that was instrumented is to be trusted. The pairs of an instruction and a vector that it passes
on are those that the checker knows, and so are those of all the sites there are. So an instruction
never comes with address zero, or with another vector than the one it was first met with. -/

namespace Overrun

open Guest

def Operation.emits : Operation → Reply → List (UInt64 × VectorRef)
  | instrument source _ hooks, .block (.ok out) => accessPairs hooks.access source out
  | _, _ => []

def Operation.passed : Operation → List (UInt64 × VectorRef)
  | access _ hook => [(hook.instruction, hook.vector)]
  | _ => []

theorem Catalog.vector_of_lt (c : Catalog) {v : VectorRef} (inside : v.index < c.vectors.size) :
    ∃ blocks, c.vector v = .ok blocks := by
  have held : c.vectors.get? v.index = some c.vectors.items[v.index] :=
    List.getElem?_eq_getElem inside
  unfold vector
  rw [held]
  exact ⟨_, rfl⟩

namespace Checker

/-- The states that come about if all accesses are made by instrumented code, with all that such code
may pass on. -/
inductive Instrumented : Checker → List (UInt64 × VectorRef) → Prop where
  | initial (config : Config) (target : Target) : Instrumented (.initial config target) []
  | step {c : Checker} {pairs : List (UInt64 × VectorRef)} {env : Environment} {op : Operation}
      {o : Outcome Reply} (before : Instrumented c pairs) (follows : op.passed ⊆ pairs)
      (done : c.step env op = .ok o) : Instrumented o.checker (pairs ++ op.emits o.value)

variable {c after : Checker} {env : Environment} {pairs : List (UInt64 × VectorRef)}
  {P : UInt64 → VectorRef → Prop}

theorem Instrumented.reachable (instrumented : Instrumented c pairs) : c.Reachable := by
  induction instrumented with
  | initial config target => exact .initial config target
  | step before follows done ih => exact ih.step done

def EverySite (P : UInt64 → VectorRef → Prop) (c : Checker) : Prop :=
  ∀ tid t, c.thread? tid = some t → t.stack.EverySite P

namespace EverySite

theorem congr (every : c.EverySite P) (threads : after.threads = c.threads) :
    after.EverySite P :=
  forall_thread?_congr every threads

theorem setSlot (every : c.EverySite P) {tid : ThreadId} {slot : Option Thread}
    (kept : ∀ t, slot = some t → t.stack.EverySite P)
    (threads : after.threads = (c.setSlot tid slot).threads) : after.EverySite P :=
  forall_thread?_setSlot every kept threads

theorem setThread (every : c.EverySite P) {tid : ThreadId} {t : Thread}
    (kept : t.stack.EverySite P) (threads : after.threads = (c.setThread tid t).threads) :
    after.EverySite P :=
  every.setSlot (fun _ same => Option.some.inj same ▸ kept) threads

theorem step (every : c.EverySite P) (wf : c.WellFormed) {op : Operation} {o : Outcome Reply}
    (new : ∀ pair ∈ op.passed, P pair.1 pair.2)
    (done : c.step env op = .ok o) : o.checker.EverySite P := by
  cases wf.stepped done with
  | createThread parent room => exact every.setThread (Thread.everySite_initial _) rfl
  | startThread found sp => exact every.setThread ((every _ _ found).push sp 0) rfl
  | exitThread tid =>
    show (c.exitThread tid).checker.EverySite P
    rcases c.exitThread_eq tid with same | same
    · rw [same]
      exact every
    · rw [same]
      exact every.setSlot (fun _ absurd => by contradiction) rfl
  | call found known calling =>
    exact every.setThread (Thread.everySite_call (every _ _ found) calling) rfl
  | unwind found unwinding =>
    exact every.setThread
      (Thread.everySite_unwind (wf.threads _ _ found) (every _ _ found) unwinding) rfl
  | access found known classified located reported =>
    subst classified
    obtain ⟨-, threads, -⟩ := reportVerdict_keeps reported
    exact every.setThread (Thread.everySite_access (wf.threads _ _ found) (every _ _ found)
      (new _ List.mem_cons_self) _ located) threads
  | @classify _ access vector t blocks found known =>
    have kept : (t.classify c.globals vector blocks access).thread.stack.EverySite P := by
      rw [classify_stack]
      exact every _ t found
    exact every.setThread kept rfl
  | loadGlobals handle =>
    exact every.congr (registerGlobals_threads c _)
  | unmap region =>
    dsimp only
    rcases c.unmapped_eq region with same | ⟨range, same⟩
    · rw [same]
      exact every
    · rw [same]
      intro tid t found
      rw [thread?_afterUnmap] at found
      obtain ⟨old, there, rfl⟩ := Option.map_eq_some_iff.1 found
      exact (every tid old there).forget _
  | vectorAt instruction =>
    have threads := congrArg Checker.threads (vectorAt_consulted env c instruction).sharing
    exact every.congr threads
  | instrument instrumented =>
    have threads := congrArg Checker.threads (instrument_lookedUp instrumented).consulted.sharing
    exact every.congr threads
  | internVector | takeDiagnostics | summarize => exact every.congr rfl

end EverySite

/-- Whether the checker knows all these pairs, and also those of every site there is. -/
structure Trusting (c : Checker) (pairs : List (UInt64 × VectorRef)) : Prop where
  informed : c.Informed
  backed : ∀ pair ∈ pairs, c.Backs pair
  sites : c.EverySite fun instruction vector => c.vectors.lookup instruction = some vector

theorem trusting_initial (config : Config) (target : Target) :
    Trusting (.initial config target) [] where
  informed _ _ absurd := by contradiction
  backed _ absurd := by contradiction
  sites tid t found := by
    rw [thread?_initial] at found
    contradiction

theorem WellFormed.emits_backed (wf : c.WellFormed) (informed : c.Informed) {op : Operation}
    {o : Outcome Reply} (done : c.step env op = .ok o)
    (few : o.checker.catalog.vectors.size < 0xffffffff) :
    ∀ pair ∈ op.emits o.value, o.checker.Backs pair := by
  cases wf.stepped done with
  | @instrument source layout hooks result instrumented =>
    obtain ⟨value, last, events⟩ := result
    cases value with
    | ok out => exact instrument_backs informed instrumented rfl few
    | error e => exact fun _ absurd => by contradiction
  | _ => exact fun _ absurd => by contradiction

theorem Trusting.step (trusting : Trusting c pairs) (wf : c.WellFormed) {op : Operation}
    {o : Outcome Reply} (follows : op.passed ⊆ pairs) (done : c.step env op = .ok o)
    (few : o.checker.catalog.vectors.size < 0xffffffff) :
    Trusting o.checker (pairs ++ op.emits o.value) := by
  obtain ⟨retained, informs⟩ := (wf.step_changed done).retained
  refine ⟨informs trusting.informed, fun pair member => ?_, ?_⟩
  · rcases List.mem_append.1 member with old | new
    · exact (trusting.backed pair old).retained retained
    · exact wf.emits_backed trusting.informed done few pair new
  · have passed : ∀ pair ∈ op.passed, c.vectors.lookup pair.1 = some pair.2 :=
      fun pair member => (trusting.backed pair (follows member)).2
    intro tid t found
    exact (trusting.sites.step wf passed done tid t found).mono retained.known

theorem Instrumented.trusting (instrumented : Instrumented c pairs)
    (few : c.catalog.vectors.size < 0xffffffff) : Trusting c pairs := by
  induction instrumented with
  | initial config target => exact trusting_initial config target
  | step before follows done ih =>
    have wf := before.reachable.wellFormed
    have fewer := Nat.lt_of_le_of_lt (wf.step_changed done).retained.1.grown few
    exact (ih fewer).step wf follows done few

/-- A site that has been met before has the vector that its instruction comes with. -/
theorem Trusting.ordinary_findOrCreate (trusting : Trusting c pairs) (wf : c.WellFormed)
    {tid : ThreadId} {t : Thread} (found : c.thread? tid = some t) {instruction : UInt64}
    {vector : VectorRef} (member : (instruction, vector) ∈ pairs) :
    Ordinary (t.stack.top.sites.findOrCreate instruction vector) := by
  obtain ⟨nonzero, known⟩ := trusting.backed _ member
  apply SiteTable.ordinary_findOrCreate nonzero
  intro site met
  obtain ⟨there, rfl⟩ :=
    (SiteTable.find?_eq_some_iff (wf.threads tid t found).live.top.1).1 met
  have same := (trusting.sites tid t found).top site there
  exact Option.some.inj (same.symm.trans known)

/-- Instrumented code passes on an instruction that is there and a vector that is in the catalog. No
access is doubted because of them, and neither is any other operation. -/
theorem Instrumented.never_doubted (instrumented : Instrumented c pairs)
    (few : c.catalog.vectors.size < 0xffffffff) (env : Environment) {op : Operation}
    (follows : op.passed ⊆ pairs) :
    (∀ tid hook, op = .access tid hook →
        hook.instruction ≠ 0 ∧ ∃ blocks, c.catalog.vector hook.vector = .ok blocks) ∧
      c.step env op ≠ .error .zeroInstruction ∧
      ∀ instruction known given, c.step env op ≠ .error (.vectorsDiffer instruction known given) := by
  have trusting := instrumented.trusting few
  have wf := instrumented.reachable.wellFormed
  have ordinary : Ordinary (c.step env op) := by
    apply wf.step_faults env op fun _ usual => usual
    intro tid hook t same found
    subst same
    exact trusting.ordinary_findOrCreate wf found (follows List.mem_cons_self)
  refine ⟨fun tid hook same => ?_, fun failed => ?_, fun instruction known given failed => ?_⟩
  · subst same
    obtain ⟨nonzero, known⟩ := trusting.backed _ (follows List.mem_cons_self)
    exact ⟨nonzero, c.catalog.vector_of_lt (trusting.informed _ _ known)⟩
  · exact absurd (ordinary _ failed) Bool.false_ne_true
  · exact absurd (ordinary _ failed) Bool.false_ne_true

def runInstrumented (c : Checker) (pairs : List (UInt64 × VectorRef)) :
    List (Environment × Operation) → Option (Checker × List (UInt64 × VectorRef))
  | [] => some (c, pairs)
  | (env, op) :: rest =>
    if op.passed ⊆ pairs then
      (c.step env op).toOption.bind fun o =>
        runInstrumented o.checker (pairs ++ op.emits o.value) rest
    else none

theorem Instrumented.run (instrumented : Instrumented c pairs)
    {ops : List (Environment × Operation)} {more : List (UInt64 × VectorRef)}
    (ran : runInstrumented c pairs ops = some (after, more)) : Instrumented after more := by
  induction ops generalizing c pairs with
  | nil =>
    cases ran
    exact instrumented
  | cons first rest ih =>
    unfold runInstrumented at ran
    split at ran
    · next follows =>
      obtain ⟨o, done, onward⟩ := toOption_bind_eq_some.1 ran
      exact ih (instrumented.step follows done) onward
    · contradiction

def scopeEnvironment (blocks : List StackBlock) : Environment :=
  Recorded.environment { Recorded.empty with stackBlocks := [(0x2000, blocks)] }

def sampleBlock : SuperBlock :=
  { SuperBlock.empty 184 with
    temps := [.i32]
    stmts := [.mark 0x2000 4 0, .assign ⟨0⟩ (.load .little .i32 (.const (.i64 0x7fe0)))] }

def sampleHooks : Hooks :=
  ⟨⟨"access", 0⟩, ⟨"call", 0⟩⟩

def sampleTouch (address : UInt64) : Operation :=
  .access ⟨0⟩ ⟨address, 0x7ff8, 0x8000, 4, 0x2000, ⟨0⟩⟩

/-- The block is instrumented twice. By the second time the buffer is not in scope any more. -/
def instrumentedOperations : List (Environment × Operation) :=
  [ .createThread none ⟨0⟩,
    .startThread ⟨0⟩ 0x8000,
    .instrument sampleBlock (.of .amd64) sampleHooks,
    sampleTouch 0x7fe0 ].map (scopeEnvironment [⟨-32, 16, false, true, "buffer"⟩], ·)
  ++ [ .internVector [],
    .instrument sampleBlock (.of .amd64) sampleHooks ].map (scopeEnvironment [], ·)

def samplePairs : List (UInt64 × VectorRef) :=
  [(0x2000, ⟨0⟩), (0x2000, ⟨0⟩)]

def instrumentedSample : Checker :=
  ((runInstrumented sampleStart [] instrumentedOperations).getD (sampleStart, [])).1

theorem never_doubted_sample :
    (∃ blocks, instrumentedSample.catalog.vector ⟨0⟩ = .ok blocks) ∧
      ∀ instruction known given,
        instrumentedSample.step (scopeEnvironment []) (sampleTouch 0x7fe4) ≠
          .error (.vectorsDiffer instruction known given) := by
  have ran : runInstrumented sampleStart [] instrumentedOperations =
      some (instrumentedSample, samplePairs) := by decide +kernel
  have instrumented : Instrumented instrumentedSample samplePairs :=
    (Instrumented.initial _ _).run ran
  have few : instrumentedSample.catalog.vectors.size < 0xffffffff := by decide +kernel
  have follows : (sampleTouch 0x7fe4).passed ⊆ samplePairs := by decide
  obtain ⟨passed, -, differs⟩ := instrumented.never_doubted few (scopeEnvironment []) follows
  exact ⟨(passed _ _ rfl).2, differs⟩

end Checker

end Overrun
