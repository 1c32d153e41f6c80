import Overrun.Proofs.Thread.Below

/-! Sites come one by one, by accesses of the innermost activation, and stay as long as their activation
does. An activation that is entered has none, and calls and returns leave the sites of the others alone. So
what holds of every site there is goes on to hold if it holds of each that is added and is not lost by
forgetting. What is said of the instruction and its vector alone is never lost. -/

namespace Overrun

def ShadowStack.EachSite (P : Site → Prop) (s : ShadowStack) : Prop :=
  ∀ depth a, s.get? depth = some a → ∀ site ∈ a.sites.sites, P site

def ShadowStack.EverySite (P : UInt64 → VectorRef → Prop) (s : ShadowStack) : Prop :=
  ∀ depth a, s.get? depth = some a → ∀ site ∈ a.sites.sites, P site.address site.vector

namespace ShadowStack

def table? (s : ShadowStack) (depth : Nat) : Option SiteTable :=
  (s.get? depth).map Activation.sites

variable {s after : ShadowStack} {depth level : Nat} {table : SiteTable}

theorem table?_depth (s : ShadowStack) : s.table? s.depth = some s.top.sites := by
  unfold table?
  rw [get?_depth, Option.map_some]

theorem le_depth_of_table? (held : s.table? depth = some table) : depth ≤ s.depth := by
  obtain ⟨a, found, -⟩ := Option.map_eq_some_iff.1 held
  exact le_depth_of_get? found

theorem table?_push (s : ShadowStack) (a : Activation) (depth : Nat) :
    (s.push a).table? depth = if depth = s.depth + 1 then some a.sites else s.table? depth := by
  unfold table?
  rw [get?_push]
  split <;> rfl

theorem table?_withTop (s : ShadowStack) (a : Activation) (depth : Nat) :
    ({ s with top := a } : ShadowStack).table? depth =
      if depth = s.depth then some a.sites else s.table? depth := by
  unfold table?
  rw [get?_withTop]
  split <;> rfl

theorem table?_enter {sp returnAddress : UInt64} (same : s.table? depth = after.table? depth)
    (held : (s.push (.entered sp returnAddress)).table? depth = some table) :
    table = ∅ ∨ after.table? depth = some table := by
  rw [table?_push, same] at held
  split at held
  · cases held
    exact .inl rfl
  · exact .inr held

theorem table?_withTop_same {a : Activation} (same : a.sites = s.top.sites) (depth : Nat) :
    ({ s with top := a } : ShadowStack).table? depth = s.table? depth := by
  rw [table?_withTop]
  split
  · next here => rw [here, table?_depth, same]
  · rfl

theorem table?_map_forget (doomed : Invariant → Bool) (s : ShadowStack) (depth : Nat) :
    (s.map (Activation.forget doomed)).table? depth =
      (s.table? depth).map (SiteTable.forget doomed) := by
  unfold table?
  rw [get?_map, Option.map_map, Option.map_map]
  rfl

theorem SameBelow.table? (same : SameBelow level s after) (below : depth ≤ level) :
    after.table? depth = s.table? depth := by
  rcases Nat.lt_or_eq_of_le below with under | rfl
  · exact congrArg (Option.map Activation.sites) (same.below depth under)
  · have sites := congrArg (Option.map Activation.sites) same.here
    rw [Option.map_map, Option.map_map] at sites
    exact sites

end ShadowStack

namespace Thread

variable {t : Thread} {globals : IntervalMap GlobalRef} {tid : ThreadId} {depth : Nat}
  {table : SiteTable}

theorem table?_initial {capacity : Nat} (held : (initial capacity).stack.table? depth = some table) :
    table = ∅ := by
  have bottom : depth = 0 := Nat.le_zero.1 (ShadowStack.le_depth_of_table? held)
  subst bottom
  cases held
  rfl

theorem table?_call {hook : CallHook} {blocks : List StackBlock} {called : Called}
    (done : t.call tid hook blocks = .ok called)
    (held : called.thread.stack.table? depth = some table) :
    table = ∅ ∨ t.stack.table? depth = some table := by
  obtain ⟨r, -, same⟩ := bind_eq_ok.1 done
  cases same
  refine ShadowStack.table?_enter ?_ held
  exact ShadowStack.table?_withTop_same (s := t.stack) (a := { t.stack.top with
    spAtCall := hook.spAtCall, fpAtCall := hook.fp, registered := r.added }) rfl depth

theorem table?_unwind (wf : t.WellFormed globals) {sp : UInt64} {u : Unwound}
    (done : t.unwind tid sp = .ok u) (held : u.thread.stack.table? depth = some table) :
    t.stack.table? depth = some table := by
  have inside := ShadowStack.le_depth_of_table? held
  rw [← (sameBelow_unwind wf done inside).stack.table? (Nat.le_refl _)]
  exact held

end Thread

/-- After an access a site holds what some site held before, or what was just found. -/
theorem SiteTable.Locates.revised {t : SiteTable} (wf : t.WellFormed) {address : UInt64}
    {vector : VectorRef} {l : Located} (located : t.Locates address vector l) (fresh : Invariant) :
    ⟨address, vector, l.site.invariant.revised fresh⟩ ∈ t.sites ∨
      l.site.invariant.revised fresh = fresh := by
  rcases located.known_or_new with ⟨-, known⟩ | ⟨-, new, -⟩
  · rcases l.site.invariant.revised_eq_or fresh with kept | gaveWay
    · left
      rw [kept, ← located.site_eq]
      exact ((find?_eq_some_iff wf).1 known).1
    · exact .inr gaveWay
  · rw [new]
    exact .inr rfl

section EachSite

variable {P Q : Site → Prop}

namespace ShadowStack

variable {s after : ShadowStack}

theorem EachSite.mono (each : s.EachSite P) (more : ∀ site, P site → Q site) : s.EachSite Q :=
  fun depth a found site member => more _ (each depth a found site member)

theorem EachSite.top (each : s.EachSite P) : ∀ site ∈ s.top.sites.sites, P site :=
  each s.depth s.top s.get?_depth

theorem eachSite_iff :
    s.EachSite P ↔ ∀ depth table, s.table? depth = some table → ∀ site ∈ table.sites, P site := by
  constructor
  · intro each depth table held
    obtain ⟨a, found, rfl⟩ := Option.map_eq_some_iff.1 held
    exact each depth a found
  · intro each depth a found
    exact each depth a.sites (congrArg (Option.map Activation.sites) found)

theorem EachSite.of_tables (each : s.EachSite P) (tables : ∀ depth table,
      after.table? depth = some table → table = ∅ ∨ s.table? depth = some table) :
    after.EachSite P := by
  refine eachSite_iff.2 fun depth table held site member => ?_
  rcases tables depth table held with rfl | old
  · rw [SiteTable.sites_empty] at member
    contradiction
  · exact eachSite_iff.1 each depth table old site member

theorem EachSite.push (each : s.EachSite P) (sp returnAddress : UInt64) :
    (s.push (.entered sp returnAddress)).EachSite P :=
  each.of_tables fun _ _ => table?_enter rfl

theorem EachSite.withTop (each : s.EachSite P) {a : Activation}
    (sites : ∀ site ∈ a.sites.sites, P site) :
    ({ s with top := a } : ShadowStack).EachSite P := by
  refine eachSite_iff.2 fun depth table held => ?_
  rw [table?_withTop] at held
  split at held
  · cases held
    exact sites
  · exact eachSite_iff.1 each depth table held

theorem EachSite.forget (each : s.EachSite P) (doomed : Invariant → Bool)
    (kept : ∀ site, P site → P (site.withInvariant .unknown)) :
    (s.map (Activation.forget doomed)).EachSite P := by
  refine eachSite_iff.2 fun depth table held site member => ?_
  rw [table?_map_forget] at held
  obtain ⟨old, there, rfl⟩ := Option.map_eq_some_iff.1 held
  rw [SiteTable.sites_forget] at member
  obtain ⟨before, oldMember, rfl⟩ := List.mem_map.1 member
  have fine := eachSite_iff.1 each depth old there before oldMember
  unfold SiteTable.forgotten
  split
  · exact kept before fine
  · exact fine

end ShadowStack

namespace Thread

variable {t : Thread} {globals : IntervalMap GlobalRef} {tid : ThreadId}

theorem eachSite_initial (capacity : Nat) : (initial capacity).stack.EachSite P := by
  refine ShadowStack.eachSite_iff.2 fun depth table held site member => ?_
  rw [table?_initial held, SiteTable.sites_empty] at member
  contradiction

theorem eachSite_call (each : t.stack.EachSite P) {hook : CallHook} {blocks : List StackBlock}
    {called : Called} (done : t.call tid hook blocks = .ok called) :
    called.thread.stack.EachSite P :=
  each.of_tables fun _ _ => table?_call done

theorem eachSite_unwind (wf : t.WellFormed globals) (each : t.stack.EachSite P) {sp : UInt64}
    {u : Unwound} (done : t.unwind tid sp = .ok u) : u.thread.stack.EachSite P :=
  each.of_tables fun _ _ held => .inr (table?_unwind wf done held)

theorem eachSite_learn (wf : t.stack.top.sites.WellFormed) (each : t.stack.EachSite P)
    {instruction : UInt64} {vector : VectorRef} {invariant : Invariant} {l : SiteTable.Located}
    (located : t.stack.top.sites.Locates instruction vector l)
    (new : P ⟨instruction, vector, invariant⟩) :
    (t.withTopSites (l.learn invariant)).stack.EachSite P := by
  apply each.withTop
  exact (located.replaces wf invariant).forall_mem new each.top

end Thread

end EachSite

variable {P Q : UInt64 → VectorRef → Prop}

namespace ShadowStack

variable {s after : ShadowStack}

theorem everySite_iff :
    s.EverySite P ↔ s.EachSite fun site => P site.address site.vector :=
  Iff.rfl

theorem EverySite.mono (every : s.EverySite P)
    (more : ∀ address vector, P address vector → Q address vector) : s.EverySite Q :=
  EachSite.mono (everySite_iff.1 every) fun site => more site.address site.vector

theorem EverySite.top (every : s.EverySite P) :
    ∀ site ∈ s.top.sites.sites, P site.address site.vector :=
  EachSite.top (everySite_iff.1 every)

theorem EverySite.push (every : s.EverySite P) (sp returnAddress : UInt64) :
    (s.push (.entered sp returnAddress)).EverySite P :=
  EachSite.push (everySite_iff.1 every) sp returnAddress

theorem EverySite.forget (every : s.EverySite P) (doomed : Invariant → Bool) :
    (s.map (Activation.forget doomed)).EverySite P :=
  EachSite.forget (everySite_iff.1 every) doomed fun _ held => held

end ShadowStack

namespace Thread

variable {t : Thread} {globals : IntervalMap GlobalRef} {tid : ThreadId}

theorem everySite_initial (capacity : Nat) : (initial capacity).stack.EverySite P :=
  eachSite_initial capacity

theorem everySite_call (every : t.stack.EverySite P) {hook : CallHook} {blocks : List StackBlock}
    {called : Called} (done : t.call tid hook blocks = .ok called) :
    called.thread.stack.EverySite P :=
  eachSite_call (ShadowStack.everySite_iff.1 every) done

theorem everySite_unwind (wf : t.WellFormed globals) (every : t.stack.EverySite P) {sp : UInt64}
    {u : Unwound} (done : t.unwind tid sp = .ok u) : u.thread.stack.EverySite P :=
  eachSite_unwind wf (ShadowStack.everySite_iff.1 every) done

/-- An access adds its own pair at most. -/
theorem everySite_access (wf : t.WellFormed globals) (every : t.stack.EverySite P)
    {vector : VectorRef} {instruction : UInt64} (new : P instruction vector)
    {blocks : List StackBlock} {access : Access} {l : SiteTable.Located} (invariant : Invariant)
    (located : (t.classify globals vector blocks access).thread.stack.top.sites.findOrCreate
      instruction vector = .ok l) :
    ((t.classify globals vector blocks access).thread.withTopSites
      (l.learn invariant)).stack.EverySite P := by
  have stack := classify_stack t globals vector blocks access
  rw [stack] at located
  have locates := SiteTable.findOrCreate_ok wf.live.top.1 located
  have top := wf.live.top.1
  rw [← stack] at locates every top
  exact eachSite_learn top (ShadowStack.everySite_iff.1 every) locates new

end Thread

end Overrun
