import Overrun.Proofs.Checker.Detection
import Overrun.Proofs.Checker.Effects
import Overrun.Proofs.Checker.Sharing
import Overrun.Proofs.Thread.Counting

/-! The counters add up: with each other, with what is in the report, and with the blocks and activations
there are. What is counted in goes on to be there until it is counted out. -/

namespace Overrun

namespace Statistics

/-- Whether counters agree with each other: every access is of one kind, and no event is counted that is
not part of another one. -/
structure Balanced (s : Statistics) : Prop where
  kinds : s.accesses = s.ownFrame + s.callerFrame + s.global + s.unknown
  verdicts : s.mismatched + s.upgraded ≤ s.accesses
  preened : s.changed ≤ s.preened
  misses : s.misses ≤ s.queries

theorem balanced_zero : Balanced zero :=
  ⟨rfl, Nat.le_refl 0, Nat.le_refl 0, Nat.le_refl 0⟩

end Statistics

theorem Lookup.misses_le_queries (l : Lookup) : l.misses ≤ l.queries := by
  cases l <;> decide

theorem Lookup.queries_eq_one {l : Lookup} (needed : l ≠ .unneeded) : l.queries = 1 := by
  cases l <;> first | rfl | contradiction

section CountAccess

variable {s : Statistics} {t : Thread} {globals : IntervalMap GlobalRef} {vector : VectorRef}
  {blocks : List StackBlock} {access : Access} {r : Thread.Classified}

theorem Statistics.Balanced.countAccess (balanced : s.Balanced)
    (classified : t.classify globals vector blocks access = r) (learned : Invariant) :
    (s.countAccess r learned).Balanced := by
  obtain ⟨kinds, verdicts, preened, misses⟩ := balanced
  have kind := t.classify_kind globals vector blocks access
  have few := r.lookup.misses_le_queries
  rw [classified] at kind
  rw [Statistics.countAccess_eq]
  refine ⟨?_, ?_, preened, Nat.add_le_add misses few⟩
  · dsimp only
    rcases kind with ⟨same, -⟩ | ⟨same | same | same, -⟩ <;> simp [same, kinds] <;> omega
  · cases learned.judge r.invariant <;> simp <;> omega

theorem Statistics.countAccess_queries (searched : s.accesses = s.queries + s.ownFrame)
    (classified : t.classify globals vector blocks access = r) (learned : Invariant) :
    (s.countAccess r learned).accesses =
      (s.countAccess r learned).queries + (s.countAccess r learned).ownFrame := by
  have kind := t.classify_kind globals vector blocks access
  rw [classified] at kind
  rw [Statistics.countAccess_eq]
  dsimp only
  rcases kind with ⟨own, unneeded⟩ | ⟨other, needed⟩
  · rw [if_pos own, unneeded, searched]
    exact Nat.add_assoc s.queries s.ownFrame 1
  · have apart : r.invariant.kind ≠ .ownFrame := by
      rcases other with same | same | same <;> rw [same] <;> decide
    rw [if_neg apart, Lookup.queries_eq_one needed, searched]
    omega

end CountAccess

def Operation.taken (c : Checker) : Operation → Nat
  | takeDiagnostics => c.report.total
  | _ => 0

def Operation.sparesThreads (c : Checker) : Operation → Bool
  | exitThread _ => false
  | createThread _ child => (c.thread? child).isNone
  | _ => true

def Operation.isClassify : Operation → Bool
  | classify .. => true
  | _ => false

def sumOver {α : Type} (f : α → Nat) (l : List α) : Nat :=
  l.foldr (fun a rest => f a + rest) 0

theorem sumOver_append_singleton {α : Type} (f : α → Nat) (l : List α) (a : α) :
    sumOver f (l ++ [a]) = sumOver f l + f a := by
  induction l with
  | nil => exact Nat.add_comm _ _
  | cons first rest ih => exact (congrArg (f first + ·) ih).trans (Nat.add_assoc _ _ _).symm

theorem sumOver_set {α : Type} (f : α → Nat) {l : List α} {i : Nat} {old : α}
    (held : l[i]? = some old) (new : α) :
    sumOver f (l.set i new) + f old = sumOver f l + f new := by
  induction l generalizing i with
  | nil => contradiction
  | cons first rest ih =>
    cases i with
    | zero =>
      cases held
      show f new + sumOver f rest + f old = f old + sumOver f rest + f new
      omega
    | succ i =>
      have step := ih held
      show f first + sumOver f (rest.set i new) + f old = f first + sumOver f rest + f new
      omega

theorem sumOver_map {α β : Type} {f : α → Nat} {g : β → Nat} {φ : α → β} (same : ∀ a, g (φ a) = f a)
    (l : List α) : sumOver g (l.map φ) = sumOver f l := by
  induction l with
  | nil => rfl
  | cons first rest ih =>
    show g (φ first) + sumOver g (rest.map φ) = f first + sumOver f rest
    rw [same, ih]

theorem sumOver_replicate {α : Type} {f : α → Nat} {a : α} (nothing : f a = 0) (n : Nat) :
    sumOver f (List.replicate n a) = 0 := by
  induction n with
  | zero => rfl
  | succ n ih =>
    show f a + sumOver f (List.replicate n a) = 0
    rw [nothing, ih]

namespace Checker

def total (f : Thread → Nat) (c : Checker) : Nat :=
  sumOver (fun slot => (slot.map f).getD 0) c.threads

variable {c after : Checker} {env : Environment} {tid : ThreadId} {t : Thread} {f : Thread → Nat}

theorem total_congr (threads : after.threads = c.threads) : after.total f = c.total f := by
  unfold total
  rw [threads]

theorem total_setSlot (inside : tid.index < c.threads.length) (slot : Option Thread) :
    (c.setSlot tid slot).total f + ((c.thread? tid).map f).getD 0 =
      c.total f + (slot.map f).getD 0 := by
  have held := List.getElem?_eq_getElem inside
  have same : c.thread? tid = c.threads[tid.index] := by
    unfold thread?
    rw [held]
    rfl
  rw [same]
  exact sumOver_set (fun slot => (slot.map f).getD 0) held slot

theorem total_setThread (found : c.thread? tid = some t) (new : Thread) :
    (c.setThread tid new).total f + f t = c.total f + f new := by
  have moved := total_setSlot (f := f) (index_lt_of_thread? found) (some new)
  rw [found] at moved
  exact moved

theorem total_afterUnmap (range : Interval) (kept : ∀ doomed t, f (t.forget doomed) = f t) :
    (c.afterUnmap range).total f = c.total f := by
  refine sumOver_map (fun slot => ?_) c.threads
  cases slot with
  | none => rfl
  | some t => exact kept _ t

theorem registerGlobals_size (c : Checker) (blocks : List GlobalBlock) :
    (c.registerGlobals blocks).checker.globals.size =
      c.globals.size + (c.registerGlobals blocks).added := by
  induction blocks generalizing c with
  | nil => rfl
  | cons block rest ih =>
    unfold registerGlobals
    split
    · exact ih c
    · dsimp only
      split
      · next id globals inserted =>
        dsimp only
        rw [ih, IntervalMap.size_insert inserted]
        exact Nat.add_right_comm _ _ _
      · split
        · exact ih _
        · exact ih _

theorem afterLoad_statistics (c : Checker) (blocks : List GlobalBlock) :
    (c.afterLoad blocks).statistics = { c.statistics with
      globalsAdded := c.statistics.globalsAdded + (c.registerGlobals blocks).added } := by
  have same := congrArg Checker.statistics (registerGlobals_checker c blocks)
  unfold afterLoad
  dsimp only
  rw [same]
  rfl

/-- Whether the counters agree with each other, with the report and with the globals there are, where a
number of diagnostics has been taken. -/
structure Books (c : Checker) (taken : Nat) : Prop where
  balanced : c.statistics.Balanced
  reported : c.statistics.mismatched = c.report.total + taken
  globals : c.statistics.globalsAdded = c.statistics.globalsRemoved + c.globals.size

/-- Whether as many activations and blocks are there as have been counted in and not out. -/
structure Staffed (c : Checker) : Prop where
  depths : c.statistics.pushed = c.statistics.popped + c.total (·.depth)
  blocks : c.statistics.registered = c.statistics.released + c.total (·.registered.size)

def Searched (c : Checker) : Prop :=
  c.statistics.accesses = c.statistics.queries + c.statistics.ownFrame

theorem books_initial (config : Config) (target : Target) : Books (initial config target) 0 :=
  ⟨Statistics.balanced_zero, rfl, rfl⟩

theorem Consulted.books {taken : Nat} (consulted : Consulted c after) (books : Books c taken) :
    Books after taken := by
  unfold Consulted at consulted
  rw [consulted]
  exact ⟨books.balanced, books.reported, books.globals⟩

theorem Books.afterLoad {taken : Nat} (books : Books c taken) (blocks : List GlobalBlock) :
    Books (c.afterLoad blocks) taken := by
  have kept := afterLoad_statistics c blocks
  have report := congrArg Checker.report (registerGlobals_checker c blocks)
  refine ⟨?_, ?_, ?_⟩
  · rw [kept]
    exact { books.balanced with }
  · rw [kept]
    show _ = (c.registerGlobals blocks).checker.report.total + taken
    rw [report]
    exact books.reported
  · rw [kept]
    show _ = _ + (c.registerGlobals blocks).checker.globals.size
    rw [registerGlobals_size, ← Nat.add_assoc, ← books.globals]

theorem countP_voidedBy_le (removed : List NodeId) (range : Interval) (invariants : List Invariant) :
    invariants.countP (voidedBy removed range) ≤
      invariants.countP fun inv => inv.globalNode?.isSome := by
  apply List.countP_mono_left
  intro inv _ void
  cases inv <;> first | rfl | contradiction

theorem Books.afterUnmap {taken : Nat} (books : Books c taken) (range : Interval) :
    Books (c.afterUnmap range) taken where
  balanced := { books.balanced with
    preened := Nat.add_le_add books.balanced.preened (countP_voidedBy_le _ range c.invariants) }
  reported := books.reported
  globals := by
    have parts := c.globals.size_takeRange range
    have before := books.globals
    unfold Checker.afterUnmap
    dsimp only
    omega

theorem Books.afterAccess {taken : Nat} (books : Books c taken) {r : Thread.Classified}
    {l : SiteTable.Located} {globals : IntervalMap GlobalRef} {vector : VectorRef}
    {blocks : List StackBlock} {access : Access} {hook : AccessHook} {o : Outcome Unit}
    (classified : t.classify globals vector blocks access = r)
    (reported : (c.afterAccess tid r l).reportVerdict env tid r.thread.depth hook
      l.site.invariant r.invariant = .ok o) : Books o.checker taken := by
  have balanced := books.balanced.countAccess classified l.site.invariant
  have mismatched := c.statistics.countAccess_mismatched r l.site.invariant
  rw [books.reported] at mismatched
  have shared : (c.statistics.countAccess r l.site.invariant).globalsAdded =
      (c.statistics.countAccess r l.site.invariant).globalsRemoved + c.globals.size := by
    rw [Statistics.countAccess_eq]
    exact books.globals
  rcases reportVerdict_ok_iff.1 reported with ⟨unfit, d, -, rfl⟩ | ⟨fits, rfl⟩
  · refine ⟨balanced, ?_, shared⟩
    rw [if_pos unfit] at mismatched
    dsimp only
    rw [Report.total_push]
    exact mismatched.trans (Nat.add_right_comm _ _ _)
  · rw [if_neg fits] at mismatched
    exact ⟨balanced, mismatched, shared⟩

theorem Books.step {taken : Nat} (books : Books c taken) (wf : c.WellFormed) {op : Operation}
    {o : Outcome Reply} (done : c.step env op = .ok o) : Books o.checker (taken + op.taken c) := by
  cases wf.stepped done with
  | createThread => exact ⟨books.balanced, books.reported, books.globals⟩
  | startThread | call | unwind => exact ⟨{ books.balanced with }, books.reported, books.globals⟩
  | exitThread tid =>
    show Books (c.exitThread tid).checker taken
    rcases c.exitThread_eq tid with same | same
    · rw [same]
      exact books
    · rw [same]
      exact ⟨books.balanced, books.reported, books.globals⟩
  | access found known classified located reported => exact books.afterAccess classified reported
  | classify =>
    exact ⟨{ books.balanced with
      misses := Nat.add_le_add books.balanced.misses (Lookup.misses_le_queries _) },
      books.reported, books.globals⟩
  | loadGlobals => exact books.afterLoad _
  | unmap region =>
    show Books (c.unmapped region) taken
    rcases c.unmapped_eq region with same | ⟨range, same⟩
    · rw [same]
      exact books
    · rw [same]
      exact books.afterUnmap range
  | internVector => exact ⟨books.balanced, books.reported, books.globals⟩
  | vectorAt instruction => exact (vectorAt_consulted env c instruction).books books
  | instrument instrumented => exact (instrument_lookedUp instrumented).consulted.books books
  | takeDiagnostics =>
    refine ⟨books.balanced, ?_, books.globals⟩
    show c.statistics.mismatched = 0 + (taken + c.report.total)
    rw [Nat.zero_add, books.reported, Nat.add_comm]
  | summarize => exact books

theorem staffed_initial (config : Config) (target : Target) : (initial config target).Staffed := by
  have nobody : ∀ f, (initial config target).total f = 0 := fun f =>
    sumOver_replicate (f := fun slot : Option Thread => (slot.map f).getD 0) (a := none) rfl _
  refine ⟨?_, ?_⟩
  · rw [nobody]
    rfl
  · rw [nobody]
    rfl

theorem Staffed.congr (staffed : c.Staffed) (threads : after.threads = c.threads)
    (pushed : after.statistics.pushed = c.statistics.pushed)
    (popped : after.statistics.popped = c.statistics.popped)
    (registered : after.statistics.registered = c.statistics.registered)
    (released : after.statistics.released = c.statistics.released) : after.Staffed := by
  refine ⟨?_, ?_⟩
  · rw [pushed, popped, total_congr threads, staffed.depths]
  · rw [registered, released, total_congr threads, staffed.blocks]

theorem Consulted.staffed (consulted : Consulted c after) (staffed : c.Staffed) : after.Staffed := by
  unfold Consulted at consulted
  rw [consulted]
  exact staffed.congr rfl rfl rfl rfl rfl

theorem Staffed.thread (staffed : c.Staffed) (found : c.thread? tid = some t) {new : Thread}
    (threads : after.threads = (c.setThread tid new).threads)
    (depths : after.statistics.pushed + (c.statistics.popped + t.depth) =
      c.statistics.pushed + (after.statistics.popped + new.depth))
    (blocks : after.statistics.registered + (c.statistics.released + t.registered.size) =
      c.statistics.registered + (after.statistics.released + new.registered.size)) :
    after.Staffed where
  depths := by
    have before := staffed.depths
    have moved := total_setThread (f := (·.depth)) found new
    rw [total_congr threads]
    omega
  blocks := by
    have before := staffed.blocks
    have moved := total_setThread (f := (·.registered.size)) found new
    rw [total_congr threads]
    omega

theorem Staffed.create (staffed : c.Staffed) (room : tid.index < c.threads.length)
    (vacant : c.thread? tid = none) :
    (c.setThread tid (.initial c.config.recentHits)).Staffed := by
  have kept : ∀ f : Thread → Nat, f (.initial c.config.recentHits) = 0 →
      (c.setThread tid (.initial c.config.recentHits)).total f = c.total f := by
    intro f nothing
    have moved := total_setSlot (f := f) room (some (.initial c.config.recentHits))
    rw [vacant] at moved
    exact moved.trans (congrArg (c.total f + ·) nothing)
  refine ⟨?_, ?_⟩
  · rw [kept _ rfl]
    exact staffed.depths
  · rw [kept _ rfl]
    exact staffed.blocks

theorem Staffed.access (staffed : c.Staffed) (found : c.thread? tid = some t)
    {r : Thread.Classified} (depth : r.thread.depth = t.depth)
    (registered : r.thread.registered = t.registered) (l : SiteTable.Located) :
    (c.afterAccess tid r l).Staffed := by
  have counted : (c.afterAccess tid r l).statistics = _ :=
    c.statistics.countAccess_eq r l.site.invariant
  have threads : (c.afterAccess tid r l).threads = (c.setThread tid
      (r.thread.withTopSites (l.learn (l.site.invariant.revised r.invariant)))).threads := rfl
  apply staffed.thread found threads
  · rw [counted, ← depth]
    rfl
  · rw [counted, ← registered]
    rfl

theorem Staffed.afterLoad (staffed : c.Staffed) (blocks : List GlobalBlock) :
    (c.afterLoad blocks).Staffed := by
  have threads : (c.afterLoad blocks).threads = c.threads := registerGlobals_threads c blocks
  have kept := afterLoad_statistics c blocks
  apply staffed.congr threads <;> rw [kept]

theorem Staffed.afterUnmap (staffed : c.Staffed) (range : Interval) :
    (c.afterUnmap range).Staffed where
  depths := by
    rw [total_afterUnmap range fun doomed t => t.depth_forget doomed]
    exact staffed.depths
  blocks := by
    rw [total_afterUnmap range fun doomed t => rfl]
    exact staffed.blocks

theorem Staffed.step (staffed : c.Staffed) (wf : c.WellFormed) {op : Operation}
    {o : Outcome Reply} (spares : op.sparesThreads c = true) (done : c.step env op = .ok o) :
    o.checker.Staffed := by
  cases wf.stepped done with
  | createThread parent room => exact staffed.create room (Option.isNone_iff_eq_none.1 spares)
  | @startThread _ t found sp =>
    have deeper : (t.stack.push (.entered sp 0)).depth = t.depth + 1 := rfl
    refine staffed.thread found rfl ?_ rfl
    show c.statistics.pushed + 1 + (c.statistics.popped + t.depth) =
      c.statistics.pushed + (c.statistics.popped + (t.stack.push (.entered sp 0)).depth)
    omega
  -- A thread that ends takes its activations along uncounted, so this is not asked of it.
  | exitThread => contradiction
  | @call _ _ t _ called found known calling =>
    obtain ⟨deeper, more⟩ := Thread.count_call calling
    refine staffed.thread found rfl ?_ ?_
    · show c.statistics.pushed + 1 + (c.statistics.popped + t.depth) =
        c.statistics.pushed + (c.statistics.popped + called.thread.depth)
      omega
    · show c.statistics.registered + called.added + (c.statistics.released + t.registered.size) =
        c.statistics.registered + (c.statistics.released + called.thread.registered.size)
      omega
  | @unwind _ _ t u found unwinding =>
    obtain ⟨shallower, fewer⟩ := Thread.count_unwind unwinding
    refine staffed.thread found rfl ?_ ?_
    · show c.statistics.pushed + (c.statistics.popped + t.depth) =
        c.statistics.pushed + (c.statistics.popped + u.popped + u.thread.depth)
      omega
    · show c.statistics.registered + (c.statistics.released + t.registered.size) =
        c.statistics.registered + (c.statistics.released + u.released + u.thread.registered.size)
      omega
  | @access _ hook t blocks r l _ found known classified located reported =>
    obtain ⟨-, threads, statistics⟩ := reportVerdict_keeps reported
    obtain ⟨depth, registered⟩ := t.count_classify c.globals hook.vector blocks hook.access
    rw [classified] at depth registered
    have learned := staffed.access found depth registered l
    exact learned.congr threads (congrArg (·.pushed) statistics) (congrArg (·.popped) statistics)
      (congrArg (·.registered) statistics) (congrArg (·.released) statistics)
  | @classify _ access vector t blocks found known =>
    obtain ⟨depth, registered⟩ := t.count_classify c.globals vector blocks access
    refine staffed.thread found rfl ?_ ?_
    · rw [← depth]
      rfl
    · rw [← registered]
      rfl
  | loadGlobals => exact staffed.afterLoad _
  | unmap region =>
    show (c.unmapped region).Staffed
    rcases c.unmapped_eq region with same | ⟨range, same⟩
    · rw [same]
      exact staffed
    · rw [same]
      exact staffed.afterUnmap range
  | internVector => exact staffed.congr rfl rfl rfl rfl rfl
  | vectorAt instruction => exact (vectorAt_consulted env c instruction).staffed staffed
  | instrument instrumented => exact (instrument_lookedUp instrumented).consulted.staffed staffed
  | takeDiagnostics => exact staffed.congr rfl rfl rfl rfl rfl
  | summarize => exact staffed

theorem Consulted.searched (consulted : Consulted c after) (searched : c.Searched) :
    after.Searched := by
  unfold Consulted at consulted
  rw [consulted]
  exact searched

theorem Searched.step (searched : c.Searched) (wf : c.WellFormed) {op : Operation}
    {o : Outcome Reply} (indirect : op.isClassify = false) (done : c.step env op = .ok o) :
    o.checker.Searched := by
  cases wf.stepped done with
  | createThread | startThread | call | unwind | internVector | takeDiagnostics | summarize =>
    exact searched
  | exitThread tid =>
    show (c.exitThread tid).checker.Searched
    rcases c.exitThread_eq tid with same | same
    · rw [same]
      exact searched
    · rw [same]
      exact searched
  | @access _ hook t blocks r l result found known classified located reported =>
    obtain ⟨-, -, statistics⟩ := reportVerdict_keeps reported
    show result.checker.Searched
    unfold Searched
    rw [statistics]
    exact Statistics.countAccess_queries searched classified l.site.invariant
  | classify => contradiction
  | loadGlobals =>
    unfold Searched
    rw [afterLoad_statistics]
    exact searched
  | unmap region =>
    show (c.unmapped region).Searched
    rcases c.unmapped_eq region with same | ⟨range, same⟩
    · rw [same]
      exact searched
    · rw [same]
      exact searched
  | vectorAt instruction => exact (vectorAt_consulted env c instruction).searched searched
  | instrument instrumented => exact (instrument_lookedUp instrumented).consulted.searched searched

/-- The states a checker can get into, each with the operations that were performed before and the states
they were performed in. -/
inductive History : Checker → List (Checker × Operation) → Prop where
  | initial (config : Config) (target : Target) : History (.initial config target) []
  | step {c : Checker} {past : List (Checker × Operation)} {env : Environment} {op : Operation}
      {o : Outcome Reply} (before : History c past) (done : c.step env op = .ok o) :
      History o.checker (past ++ [(c, op)])

variable {past : List (Checker × Operation)}

theorem History.reachable (history : History c past) : c.Reachable := by
  induction history with
  | initial config target => exact .initial config target
  | step before done ih => exact ih.step done

theorem Reachable.history (reachable : c.Reachable) : ∃ past, History c past := by
  induction reachable with
  | initial config target => exact ⟨[], .initial config target⟩
  | step before done ih =>
    obtain ⟨past, history⟩ := ih
    exact ⟨_, history.step done⟩

def taken (past : List (Checker × Operation)) : Nat :=
  sumOver (fun (before, op) => op.taken before) past

theorem History.books (history : History c past) : Books c (taken past) := by
  induction history with
  | initial config target => exact books_initial config target
  | @step c past env op o before done ih =>
    have more : taken (past ++ [(c, op)]) = taken past + op.taken c :=
      sumOver_append_singleton _ past (c, op)
    rw [more]
    exact ih.step before.reachable.wellFormed done

theorem History.staffed (history : History c past)
    (spared : ∀ event ∈ past, event.2.sparesThreads event.1 = true) : c.Staffed := by
  induction history with
  | initial config target => exact staffed_initial config target
  | step before done ih =>
    have earlier := ih fun event member => spared event (List.mem_append_left _ member)
    exact earlier.step before.reachable.wellFormed
      (spared _ (List.mem_append_right _ List.mem_cons_self)) done

theorem History.searched (history : History c past)
    (indirect : ∀ event ∈ past, event.2.isClassify = false) : c.Searched := by
  induction history with
  | initial config target => exact rfl
  | step before done ih =>
    have earlier := ih fun event member => indirect event (List.mem_append_left _ member)
    exact earlier.step before.reachable.wellFormed
      (indirect _ (List.mem_append_right _ List.mem_cons_self)) done

structure Conserved (c : Checker) (past : List (Checker × Operation)) : Prop where
  kinds : c.statistics.accesses = c.statistics.ownFrame + c.statistics.callerFrame
    + c.statistics.global + c.statistics.unknown
  verdicts : c.statistics.mismatched + c.statistics.upgraded ≤ c.statistics.accesses
  reported : c.statistics.mismatched =
    c.report.diagnostics.length + c.report.dropped + taken past
  globals : c.statistics.globalsAdded = c.statistics.globalsRemoved + c.globals.size
  preened : c.statistics.changed ≤ c.statistics.preened
  misses : c.statistics.misses ≤ c.statistics.queries
  queries : (∀ event ∈ past, event.2.isClassify = false) →
    c.statistics.accesses = c.statistics.queries + c.statistics.ownFrame
  depths : (∀ event ∈ past, event.2.sparesThreads event.1 = true) →
    c.statistics.pushed = c.statistics.popped + c.total (·.depth)
  blocks : (∀ event ∈ past, event.2.sparesThreads event.1 = true) →
    c.statistics.registered = c.statistics.released + c.total (·.registered.size)

/-- Whatever has been done, nothing that was counted is lost. -/
theorem History.conserved (history : History c past) : Conserved c past where
  kinds := history.books.balanced.kinds
  verdicts := history.books.balanced.verdicts
  reported := history.books.reported
  globals := history.books.globals
  preened := history.books.balanced.preened
  misses := history.books.balanced.misses
  queries := history.searched
  depths spared := (history.staffed spared).depths
  blocks spared := (history.staffed spared).blocks

def runHistory (c : Checker) (past : List (Checker × Operation)) :
    List (Environment × Operation) → Option (Checker × List (Checker × Operation))
  | [] => some (c, past)
  | (env, op) :: rest =>
    (c.step env op).toOption.bind fun o => runHistory o.checker (past ++ [(c, op)]) rest

theorem History.run (history : History c past) {ops : List (Environment × Operation)}
    {more : List (Checker × Operation)} (ran : runHistory c past ops = some (after, more)) :
    History after more := by
  induction ops generalizing c past with
  | nil =>
    cases ran
    exact history
  | cons first rest ih =>
    obtain ⟨o, done, onward⟩ := toOption_bind_eq_some.1 ran
    exact ih (history.step done) onward

/-- An instruction strays from the buffer it has learned, and then all that was registered goes. -/
def conservedOperations : List Operation :=
  sampleOperations ++ [
    .access ⟨0⟩ ⟨0x7000, 0x7f78, 0x7f80, 4, 0x2000, ⟨1⟩⟩,
    .takeDiagnostics,
    .unmap ⟨0x5000, 64⟩,
    .unwind ⟨0⟩ 0x7f80]

def conservedSample : Checker × List (Checker × Operation) :=
  (runHistory sampleStart [] (conservedOperations.map (sampleEnvironment, ·))).getD (sampleStart, [])

theorem conserved_sample :
    Conserved conservedSample.1 conservedSample.2 ∧
      conservedSample.1.statistics.counters = [3, 0, 1, 1, 1, 0, 1, 2, 1, 1, 1, 1, 1, 1, 1, 3, 3] ∧
      conservedSample.1.total (·.depth) = 1 := by
  have ran : runHistory sampleStart [] (conservedOperations.map (sampleEnvironment, ·)) =
      some conservedSample := by decide +kernel
  have history : History conservedSample.1 conservedSample.2 := (History.initial _ _).run ran
  exact ⟨history.conserved, by decide +kernel, by decide +kernel⟩

end Checker

end Overrun
