import Overrun.Proofs.Checker.Balance
import Overrun.Proofs.Checker.Learning

/-! What an operation does to the sites of one activation: they are forgotten in part, or the activation
accesses memory and one of them learns. An instruction that holds nothing there holds nothing until it
accesses memory there again, and that access is passed over. -/

namespace Overrun

namespace Checker

def table? (c : Checker) (tid : ThreadId) (depth : Nat) : Option SiteTable :=
  (c.thread? tid).bind fun t => t.stack.table? depth

variable {c after later : Checker} {env : Environment} {tid : ThreadId} {depth : Nat}
  {table : SiteTable}

theorem table?_eq {t : Thread} (there : c.thread? tid = some t) (depth : Nat) :
    c.table? tid depth = t.stack.table? depth := by
  unfold table?
  rw [there]
  rfl

theorem table?_congr (threads : after.threads = c.threads) :
    after.table? tid depth = c.table? tid depth := by
  unfold table?
  rw [thread?_congr threads]

theorem table?_setThread {t new : Thread} (there : c.thread? tid = some t)
    (threads : after.threads = (c.setThread tid new).threads) :
    after.table? tid depth = new.stack.table? depth :=
  (table?_congr threads).trans (table?_eq (thread?_setThread there) depth)

theorem table?_forget {doomed : Invariant → Bool}
    (threads : after.threads = c.threads.map (Option.map (Thread.forget doomed)))
    (tid : ThreadId) (depth : Nat) :
    after.table? tid depth = (c.table? tid depth).map (SiteTable.forget doomed) := by
  unfold table?
  rw [thread?_map threads]
  cases c.thread? tid with
  | none => rfl
  | some t => exact t.stack.table?_map_forget doomed depth

/-- How the sites of the activation of `tid` at `depth` can come about by an operation. -/
inductive TableStepped (c : Checker) (op : Operation) (tid : ThreadId) (depth : Nat) :
    SiteTable → Prop where
  | entered : TableStepped c op tid depth ∅
  | forgotten {t : SiteTable} (held : c.table? tid depth = some t) (doomed : Invariant → Bool) :
      TableStepped c op tid depth (t.forget doomed)
  | learned {t : SiteTable} {hook : AccessHook} {l : SiteTable.Located} {u : Thread}
      (held : c.table? tid depth = some t) (own : op = .access tid hook)
      (there : c.thread? tid = some u) (here : u.depth = depth)
      (located : t.Locates hook.instruction hook.vector l) (invariant : Invariant) :
      TableStepped c op tid depth (l.learn invariant)

namespace TableStepped

variable {op : Operation}

theorem kept (held : c.table? tid depth = some table) : TableStepped c op tid depth table := by
  have same : TableStepped c op tid depth (table.forget fun _ => false) := .forgotten held _
  rw [SiteTable.forget_never] at same
  exact same

theorem of_thread {t new : Thread} (there : c.thread? tid = some t)
    (threads : after.threads = (c.setThread tid new).threads)
    (held : after.table? tid depth = some table)
    (sites : new.stack.table? depth = some table →
      table = ∅ ∨ t.stack.table? depth = some table) :
    TableStepped c op tid depth table := by
  rw [table?_setThread there threads] at held
  rcases sites held with rfl | same
  · exact .entered
  · exact kept ((table?_eq there depth).trans same)

end TableStepped

theorem WellFormed.step_table (wf : c.WellFormed) {op : Operation} {o : Outcome Reply}
    (done : c.step env op = .ok o) (held : o.checker.table? tid depth = some table) :
    TableStepped c op tid depth table := by
  cases own : op.concerns tid with
  | false =>
    obtain ⟨alike, -⟩ := wf.step_other own done
    unfold table? at held
    rw [alike.thread] at held
    exact .kept held
  | true =>
    cases wf.stepped done with
    | createThread parent room =>
      cases beq_iff_eq.1 own
      have new : (c.setThread tid (.initial c.config.recentHits)).thread? tid =
          some (.initial c.config.recentHits) := by
        unfold Checker.setThread
        rw [thread?_setSlot, if_pos ⟨rfl, room⟩]
      rw [table?_eq new] at held
      cases Thread.table?_initial held
      exact .entered
    | startThread found sp =>
      cases beq_iff_eq.1 own
      exact .of_thread found rfl held (ShadowStack.table?_enter rfl)
    | exitThread tid =>
      cases beq_iff_eq.1 own
      obtain ⟨t, there, -⟩ := Option.bind_eq_some_iff.1 held
      cases (thread?_exitThread c tid).symm.trans there
    | call found known calling =>
      cases beq_iff_eq.1 own
      exact .of_thread found rfl held (Thread.table?_call calling)
    | unwind found unwinding =>
      cases beq_iff_eq.1 own
      exact .of_thread found rfl held fun same =>
        .inr (Thread.table?_unwind (wf.threads _ _ found) unwinding same)
    -- Of the tables of the thread only the one on top may have learned something.
    | @access _ hook t blocks r l result found known classified located reported =>
      cases beq_iff_eq.1 own
      subst classified
      obtain ⟨-, threads, -⟩ := reportVerdict_keeps reported
      obtain ⟨locates, hits, same, -⟩ := (wf.threads _ t found).learns located
      change result.checker.table? tid depth = some table at held
      rw [table?_setThread found threads, same] at held
      unfold Thread.withTopSites at held
      rw [ShadowStack.table?_withTop] at held
      split at held
      · next here =>
        cases held
        have top : c.table? tid depth = some t.stack.top.sites := by
          rw [table?_eq found, here]
          exact t.stack.table?_depth
        exact .learned top rfl found here.symm locates _
      · exact .kept ((table?_eq found depth).trans held)
    | @classify _ access vector t blocks found known =>
      cases beq_iff_eq.1 own
      refine .of_thread found rfl held fun same => .inr ?_
      rw [classify_stack] at same
      exact same
    | loadGlobals handle =>
      exact .kept ((table?_congr (registerGlobals_threads c _)).symm.trans held)
    | unmap region =>
      dsimp only at held
      rcases c.unmapped_eq region with same | ⟨range, same⟩
      · rw [same] at held
        exact .kept held
      · have threads := congrArg Checker.threads same
        rw [table?_forget threads] at held
        obtain ⟨old, oldHeld, rfl⟩ := Option.map_eq_some_iff.1 held
        exact .forgotten oldHeld _
    | vectorAt instruction =>
      have threads := congrArg Checker.threads (vectorAt_consulted env c instruction).sharing
      exact .kept ((table?_congr threads).symm.trans held)
    | instrument instrumented =>
      have threads := congrArg Checker.threads (instrument_lookedUp instrumented).consulted.sharing
      exact .kept ((table?_congr threads).symm.trans held)
    | internVector | takeDiagnostics | summarize => exact .kept held

end Checker

def Operation.Visits (c : Checker) (tid : ThreadId) (depth : Nat) (instruction : UInt64)
    (op : Operation) : Prop :=
  ∃ hook t, op = access tid hook ∧ hook.instruction = instruction ∧
    c.thread? tid = some t ∧ t.depth = depth

def SiteTable.Blank (instruction : UInt64) (t : SiteTable) : Prop :=
  ∀ site ∈ t.sites, site.address = instruction → site.invariant = .unknown

namespace Checker

/-- Whether operations lead from one state to another and none of them is an access by `instruction` in
the activation of `tid` at `depth`. -/
inductive Meanwhile (tid : ThreadId) (depth : Nat) (instruction : UInt64) :
    Checker → Checker → Prop where
  | none (c : Checker) : Meanwhile tid depth instruction c c
  | step {c last : Checker} {env : Environment} {op : Operation} {o : Outcome Reply}
      (done : c.step env op = .ok o) (elsewhere : ¬op.Visits c tid depth instruction)
      (rest : Meanwhile tid depth instruction o.checker last) :
      Meanwhile tid depth instruction c last

def Blank (tid : ThreadId) (depth : Nat) (instruction : UInt64) (c : Checker) : Prop :=
  ∀ table, c.table? tid depth = some table → table.Blank instruction

variable {c later : Checker} {env : Environment} {tid : ThreadId} {depth : Nat}
  {instruction : UInt64}

theorem Blank.step (blank : c.Blank tid depth instruction) (wf : c.WellFormed) {op : Operation}
    {o : Outcome Reply} (done : c.step env op = .ok o)
    (elsewhere : ¬op.Visits c tid depth instruction) : o.checker.Blank tid depth instruction := by
  intro table held site member named
  cases wf.step_table done held with
  | entered =>
    rw [SiteTable.sites_empty] at member
    contradiction
  | forgotten before doomed =>
    rw [SiteTable.sites_forget] at member
    obtain ⟨old, oldMember, rfl⟩ := List.mem_map.1 member
    rw [SiteTable.forgotten_address] at named
    have unknown := blank _ before old oldMember named
    unfold SiteTable.forgotten
    split
    · rfl
    · exact unknown
  | learned before own there here located invariant =>
    -- The one site that learns is of the instruction that makes the access.
    rcases located.mem_learn.1 member with rfl | ⟨old, -⟩
    · exact absurd ⟨_, _, own, named, there, here⟩ elsewhere
    · exact blank _ before site old named

theorem Blank.meanwhile (blank : c.Blank tid depth instruction) (wf : c.WellFormed)
    (between : Meanwhile tid depth instruction c later) :
    later.Blank tid depth instruction ∧ later.WellFormed := by
  induction between with
  | none => exact ⟨blank, wf⟩
  | step done elsewhere rest ih => exact ih (blank.step wf done elsewhere) (wf.step done)

theorem Blank.access (blank : c.Blank tid depth instruction) (wf : c.WellFormed)
    {hook : AccessHook} {o : Outcome Unit} (done : c.access env tid hook = .ok o)
    (visits : Operation.Visits c tid depth instruction (.access tid hook)) :
    o.events = [] ∧ o.checker.report = c.report := by
  obtain ⟨_, t, same, rfl, there, rfl⟩ := visits
  cases same
  obtain ⟨classified, -, accessed⟩ := wf.accessed done
  apply accessed.silent
  rintro ⟨confined, -⟩
  have table : c.table? tid t.depth = some t.stack.top.sites :=
    (table?_eq there _).trans t.stack.table?_depth
  rw [learned?_eq there] at confined
  cases known : t.stack.top.sites.find? hook.instruction with
  | none =>
    rw [known] at confined
    contradiction
  | some site =>
    obtain ⟨member, named⟩ :=
      (SiteTable.find?_eq_some_iff (wf.threads tid t there).live.top.1).1 known
    have unknown := blank _ table site member named
    rw [known, Option.map_some, unknown] at confined
    contradiction

/-- Whether the next access by an instruction in the activation of `tid` at `depth` is passed over,
whatever is done in between. -/
def Forgiving (tid : ThreadId) (depth : Nat) (instruction : UInt64) (c : Checker) : Prop :=
  ∀ later, Meanwhile tid depth instruction c later → ∀ env hook o,
    Operation.Visits later tid depth instruction (.access tid hook) →
      later.access env tid hook = .ok o → o.events = [] ∧ o.checker.report = later.report

theorem Blank.forgiving (blank : c.Blank tid depth instruction) (wf : c.WellFormed) :
    c.Forgiving tid depth instruction := by
  intro later between env hook o visits done
  obtain ⟨still, laterWf⟩ := blank.meanwhile wf between
  exact still.access laterWf done visits

end Checker

end Overrun
