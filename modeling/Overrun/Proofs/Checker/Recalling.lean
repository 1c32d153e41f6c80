import Overrun.Proofs.Checker.Asking
import Overrun.Proofs.Checker.Harmless
import Overrun.Proofs.Checker.Isolation
import Overrun.Proofs.Checker.Upkeep

/-! What was found out about an instruction stays. Its vector is the same for ever, and a block that is
instrumented again, in whatever later state, comes out as it did before, with no question asked. -/

namespace Overrun.Checker

open Guest

/-- Whether two environments hold the same code at the instructions of a block. -/
def SameCode (env other : Environment) (source : SuperBlock) : Prop :=
  ∀ address ∈ source.addresses, ∀ window, other.readCode address window = env.readCode address window

variable {c after later : Checker} {env other : Environment} {source : SuperBlock} {layout : Layout}
  {hook : Callee} {hooks : Hooks}

theorem vectorAt_of_known {instruction : UInt64} {v : VectorRef}
    (known : c.vectors.lookup instruction = some v) (env : Environment) :
    c.vectorAt env instruction = ⟨v, c, []⟩ := by
  unfold vectorAt
  rw [known]

theorem Retained.vectorAt {instruction : UInt64}
    (retained : Retained (c.vectorAt env instruction).checker later) (other : Environment) :
    later.vectorAt other instruction = ⟨(c.vectorAt env instruction).value, later, []⟩ := by
  refine vectorAt_of_known (retained.known instruction _ ?_) other
  exact (vectorAt_lookup env c instruction instruction).trans (if_pos rfl)

theorem SameRules.isSuppressed (same : SameRules c later) {address : UInt64}
    (code : ∀ window, other.readCode address window = env.readCode address window)
    (layout : Layout) :
    later.isSuppressed other layout address = c.isSuppressed env layout address := by
  unfold Checker.isSuppressed
  dsimp only
  rw [same.suppressEpilogues, code]

namespace Copying

variable {p q : Copying} {r : Except InstrumentError Unit}

def recalled (later : Checker) (p : Copying) : Copying :=
  p.recast (fun _ => later) fun _ => []

theorem enter_recalled {address : UInt64} (same : SameRules p.checker later)
    (retained : Retained (p.enter env address).checker later)
    (code : ∀ window, other.readCode address window = env.readCode address window) :
    (p.recalled later).enter other address = (p.enter env address).recalled later := by
  have found : later.vectorAt other address = ⟨_, later, []⟩ := retained.vectorAt other
  have rules := same.consulted (vectorAt_consulted env p.checker address)
  unfold enter recalled recast
  dsimp only
  rw [found, rules.isSuppressed code]
  rfl

theorem copy_recalled {index : Nat} {stmt : Stmt} (same : SameRules p.checker later)
    (code : ∀ mark, SuperBlock.mark? stmt = some mark → ∀ window,
      other.readCode mark.address window = env.readCode mark.address window)
    (done : p.copy env source hook index stmt = .ok (r, q)) (retained : Retained q.checker later) :
    (p.recalled later).copy other source hook index stmt = .ok (r, q.recalled later) := by
  rw [copy_eq_ok_iff]
  cases copy_eq_ok_iff.1 done with
  | zero marked zero => exact .zero marked zero
  | enter marked there =>
    have entered : Copies other source hook (p.recalled later) index stmt _ _ := .enter marked there
    rw [enter_recalled same retained (code _ marked)] at entered
    exact entered
  | idle unmarked referring => exact .idle unmarked referring
  | reference unmarked referring meeting =>
    exact .reference unmarked referring ((meet_recast _ _ p index _).trans (congrArg _ meeting))

theorem copyAll_recalled {index : Nat} {stmts : List Stmt} (same : SameRules p.checker later)
    (code : ∀ stmt ∈ stmts, ∀ mark, SuperBlock.mark? stmt = some mark → ∀ window,
      other.readCode mark.address window = env.readCode mark.address window)
    (done : p.copyAll env source hook index stmts = .ok (r, q)) (retained : Retained q.checker later) :
    (p.recalled later).copyAll other source hook index stmts = .ok (r, q.recalled later) := by
  induction stmts generalizing p index with
  | nil =>
    obtain ⟨rfl, rfl⟩ := copyAll_nil_eq_ok_iff.1 done
    rfl
  | cons stmt rest ih =>
    have here := code stmt List.mem_cons_self
    rw [copyAll_cons_eq_ok_iff]
    rcases copyAll_cons_eq_ok_iff.1 done with ⟨e, copying, rfl⟩ | ⟨middle, copying, onward⟩
    · exact .inl ⟨e, copy_recalled same here copying retained, rfl⟩
    · have kept := (copyAll_lookedUp onward).retained.trans retained
      refine .inr ⟨middle.recalled later, copy_recalled same here copying kept, ?_⟩
      exact ih (same.consulted (copy_lookedUp copying).consulted)
        (fun other member => code other (List.mem_cons_of_mem _ member)) onward

theorem close_recalled (same : SameRules p.checker later)
    (done : p.close env source hook = .ok (r, q)) (retained : Retained q.checker later) :
    (p.recalled later).close other source hook = .ok (r, q.recalled later) := by
  rw [close_eq_ok_iff]
  cases close_eq_ok_iff.1 done with
  | plain plain => exact .plain plain
  | unmarked ends none => exact .unmarked ends none
  | @call mark found inserted b ends final lookup inserting =>
    subst lookup
    have rules := same.consulted (vectorAt_consulted env p.checker mark.address)
    have found : later.vectorAt other mark.address = ⟨_, later, []⟩ := retained.vectorAt other
    rw [← rules.target] at inserting
    exact @Ends.call other source hook (p.recalled later) mark _ inserted b ends final found inserting

end Copying

/-- A block that has been instrumented comes out the same in any state that retains what was asked for. -/
theorem instrument_recalled {o : Outcome (Except InstrumentError SuperBlock)}
    (done : c.instrument env source layout hooks = .ok o) (same : SameRules c later)
    (retained : Retained o.checker later) (code : SameCode env other source) :
    ∃ p, later.instrument other source layout hooks = .ok p ∧ p.value = o.value ∧
      p.checker = later ∧ Event.consultations p.events = [] := by
  have marked : ∀ stmt ∈ source.stmts, ∀ mark, SuperBlock.mark? stmt = some mark → ∀ window,
      other.readCode mark.address window = env.readCode mark.address window := by
    intro stmt member mark found
    exact code mark.address (List.mem_map_of_mem (List.mem_filterMap.2 ⟨stmt, member, found⟩))
  have again : ∀ {p : Copying} {r},
      Copying.copyAll env source hooks.access ⟨c, .ofTemplate source layout, none, []⟩ 0
        source.stmts = .ok (r, p) → Retained p.checker later →
      Copying.copyAll other source hooks.access ⟨later, .ofTemplate source layout, none, []⟩ 0
        source.stmts = .ok (r, p.recalled later) :=
    fun copying kept => Copying.copyAll_recalled same marked copying kept
  have closes : ∀ {p q : Copying} {r}, LookedUp env c p.checker →
      p.close env source hooks.call = .ok (r, q) → Retained q.checker later →
        Retained p.checker later ∧
          (p.recalled later).close other source hooks.call = .ok (r, q.recalled later) :=
    fun found closing kept => ⟨(Copying.close_lookedUp closing).retained.trans kept,
      Copying.close_recalled (same.consulted found.consulted) closing kept⟩
  simp only [instrument_eq_ok_iff]
  cases instrument_eq_ok_iff.1 done with
  | foreign apart =>
    rw [← same.target] at apart ⊢
    exact ⟨_, .foreign apart, rfl, rfl, rfl⟩
  | refused fitting copying =>
    rw [← same.target] at fitting
    exact ⟨_, .refused fitting (again copying retained), rfl, rfl, rfl⟩
  | unclosed fitting copying closing =>
    rw [← same.target] at fitting
    obtain ⟨kept, closing⟩ := closes (Copying.copyAll_lookedUp copying) closing retained
    exact ⟨_, .unclosed fitting (again copying kept) closing, rfl, rfl, rfl⟩
  | made fitting copying closing =>
    rw [← same.target] at fitting
    obtain ⟨kept, closing⟩ := closes (Copying.copyAll_lookedUp copying) closing retained
    exact ⟨_, .made fitting (again copying kept) closing, rfl, rfl, rfl⟩

theorem WellFormed.run_rules (wf : c.WellFormed) {ops : List (Environment × Operation)}
    {replies : List Reply} (ran : c.run ops = .ok (after, replies)) : SameRules c after := by
  obtain ⟨config, target⟩ := wf.run_settings ran
  exact ⟨target, congrArg Config.arraysOnly config, congrArg Config.suppressEpilogues config⟩

/-- Whether nothing is asked for twice in a state, after what was asked for before, or forgotten. -/
structure Memoised (c : Checker) (asked : List UInt64) : Prop where
  once : asked.Nodup
  /-- The same holds in the middle of a block, which is how far a block may be copied that faults. -/
  midway : ∀ env source layout hook k r p,
    Copying.copyAll env source hook ⟨c, .ofTemplate source layout, none, []⟩ 0
        (source.stmts.take k) = .ok (r, p) →
      (asked ++ Event.consultations p.events).Nodup
  /-- A vector that is known is given for ever, whatever the debug information says. -/
  known : ∀ instruction v, c.vectors.lookup instruction = some v →
    ∀ ops last replies, c.run ops = .ok (last, replies) →
      ∀ env, last.vectorAt env instruction = ⟨v, last, []⟩
  lasting : ∀ env instruction ops last replies,
    (c.vectorAt env instruction).checker.run ops = .ok (last, replies) →
      ∀ other, last.vectorAt other instruction = ⟨(c.vectorAt env instruction).value, last, []⟩
  again : ∀ env source layout hooks o, c.instrument env source layout hooks = .ok o →
    ∀ ops last replies, o.checker.run ops = .ok (last, replies) →
      ∀ other, SameCode env other source →
        ∃ p, last.instrument other source layout hooks = .ok p ∧ p.value = o.value ∧
          p.checker = last ∧ Event.consultations p.events = []
  /-- Whatever comes of a block, it leaves all but the catalog and the known vectors as it was, and to
  those it only adds. -/
  kept : ∀ env source layout hooks o, c.instrument env source layout hooks = .ok o →
    Consulted c o.checker ∧ c.catalog.Extends o.checker.catalog ∧
      ∀ instruction v, c.vectors.lookup instruction = some v →
        o.checker.vectors.lookup instruction = some v

/-- In every run the debug information is asked once for each instruction, and what comes of it stays. -/
theorem run_memoised {config : Config} {target : Target} {ops : List (Environment × Operation)}
    {replies : List Reply} (ran : (initial config target).run ops = .ok (c, replies)) :
    c.Memoised ((initial config target).asked ops) := by
  have reachable : c.Reachable := (Reachable.initial config target).run ran
  have wf := reachable.wellFormed
  have asks := (wellFormed_initial config target).run_asks ran
  exact {
    once := asks.once
    midway := fun env source layout hook k r p copying =>
      (asks.trans (Copying.copyAll_asksOn copying).start).once
    known := fun instruction v found ops last replies onward =>
      vectorAt_of_known ((wf.run_asks onward).retained.known instruction v found)
    lasting := fun env instruction ops last replies onward =>
      ((wf.consulted (vectorAt_consulted env c instruction)).run_asks onward).retained.vectorAt
    again := fun env source layout hooks o done ops last replies onward other code => by
      have consulted := (instrument_lookedUp done).consulted
      have rules := (wf.consulted consulted).run_rules onward
      have same : SameRules c last := by
        unfold Consulted at consulted
        rw [consulted] at rules
        exact ⟨rules.target, rules.arraysOnly, rules.suppressEpilogues⟩
      exact instrument_recalled done same ((wf.consulted consulted).run_asks onward).retained code
    kept := fun env source layout hooks o done => by
      have found := instrument_lookedUp done
      exact ⟨found.consulted, (found.cataloged reachable.cataloged).1, found.retained.known⟩ }

/-- An instruction is looked up on its own, and then its block is instrumented and, when the debug information
says something else, instrumented again. -/
def memoisedOperations : List (Environment × Operation) := [
  (scopeEnvironment [], .vectorAt 0x2000),
  (scopeEnvironment [⟨-32, 16, false, true, "buffer"⟩], .instrument narrowBlock (.of .x86) sampleHooks),
  (scopeEnvironment [⟨-64, 8, false, true, "other"⟩], .instrument narrowBlock (.of .x86) sampleHooks)]

theorem run_memoised_sample :
    (narrowStart.reached memoisedOperations).Memoised [0x2000, 0x2004] := by
  obtain ⟨replies, ran⟩ := run_reached narrowStart memoisedOperations (by decide +kernel)
  have asked : narrowStart.asked memoisedOperations = [0x2000, 0x2004] := by decide +kernel
  rw [← asked]
  exact run_memoised ran

end Overrun.Checker
