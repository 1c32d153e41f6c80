import Overrun.Proofs.Block.Growing
import Overrun.Proofs.Checker.Effects
import Overrun.Proofs.Checker.Reachable
import Overrun.Proofs.Checker.Registering
import Overrun.Proofs.Checker.Sharing
import Overrun.Proofs.Thread.Sites

/-! What every operation keeps up. The catalog grows and backs all globals, and what is said of a thread
and the catalog holds in every reachable state once each way to change a thread keeps it. -/

namespace Overrun

namespace Checker

/-- Whether the vectors of the catalog are canonical and each global lies where its block says. -/
structure Cataloged (c : Checker) : Prop where
  canonical : c.catalog.Canonical
  globals : ∀ e ∈ c.globals.entries, ∃ block, c.catalog.global e.value = .ok block ∧
    e.interval.span = ⟨block.address, block.size⟩

variable {c after : Checker} {env : Environment}

theorem reportVerdict_checker {tid : ThreadId} {depth : Nat} {hook : AccessHook}
    {learned fresh : Invariant} {o : Outcome Unit}
    (done : c.reportVerdict env tid depth hook learned fresh = .ok o) :
    o.checker = { c with report := o.checker.report } := by
  rcases reportVerdict_ok_iff.1 done with ⟨-, d, -, rfl⟩ | ⟨-, rfl⟩
  · rfl
  · rfl

theorem cataloged_initial (config : Config) (target : Target) :
    (initial config target).Cataloged :=
  ⟨Catalog.canonical_empty, fun _ absurd => by contradiction⟩

theorem Cataloged.keep (held : c.Cataloged) (canonical : after.catalog.Canonical)
    (grown : c.catalog.Extends after.catalog)
    (fewer : ∀ e ∈ after.globals.entries, e ∈ c.globals.entries) : after.Cataloged := by
  refine ⟨canonical, fun e member => ?_⟩
  obtain ⟨block, known, lies⟩ := held.globals e (fewer e member)
  exact ⟨block, grown.global known, lies⟩

theorem Cataloged.internVector (held : c.Cataloged) (blocks : List StackBlock) :
    (c.internVector blocks).2.Cataloged :=
  held.keep (held.canonical.internVector blocks) (c.catalog.extends_internVector blocks)
    fun _ member => member

theorem Cataloged.vectorAt (held : c.Cataloged) (env : Environment) (instruction : UInt64) :
    c.catalog.Extends (c.vectorAt env instruction).checker.catalog ∧
      (c.vectorAt env instruction).checker.Cataloged := by
  unfold Checker.vectorAt
  split
  · exact ⟨.refl _, held⟩
  · have interned := held.internVector (env.stackBlocksAt instruction c.config.arraysOnly)
    exact ⟨c.catalog.extends_internVector _, interned.canonical, interned.globals⟩

theorem LookedUp.cataloged (found : LookedUp env c after) (held : c.Cataloged) :
    c.catalog.Extends after.catalog ∧ after.Cataloged := by
  induction found with
  | nothing => exact ⟨.refl _, held⟩
  | vector before instruction ih =>
    obtain ⟨grown, next⟩ := ih
    obtain ⟨further, last⟩ := next.vectorAt env instruction
    exact ⟨grown.trans further, last⟩

theorem Cataloged.registerGlobals (held : c.Cataloged) (blocks : List GlobalBlock) :
    c.catalog.Extends (c.registerGlobals blocks).checker.catalog ∧
      (c.registerGlobals blocks).checker.Cataloged := by
  have admits := c.registerGlobals_admits blocks
  have canonical : (c.registerGlobals blocks).checker.catalog.Canonical := by
    apply registerGlobals_induct (P := fun d => d.catalog.Canonical)
    · exact fun _ _ canonical => canonical
    · exact fun _ _ _ _ _ _ canonical => canonical
    · exact fun _ canonical => canonical
    · exact held.canonical
  refine ⟨admits.catalog, canonical, fun e member => ?_⟩
  rcases admits.registered_or_old member with ⟨b, registered⟩ | old
  · exact ⟨b, registered.known, registered.span⟩
  · obtain ⟨block, known, lies⟩ := held.globals e old
    exact ⟨block, admits.catalog.global known, lies⟩

theorem Changed.cataloged (changed : Changed env c after) (held : c.Cataloged) :
    c.catalog.Extends after.catalog ∧ after.Cataloged := by
  cases changed with
  | thread tid slot statistics report => exact ⟨.refl _, held.canonical, held.globals⟩
  | load blocks =>
    obtain ⟨grown, last⟩ := held.registerGlobals blocks
    exact ⟨grown, last.canonical, last.globals⟩
  | unmap range =>
    refine ⟨.refl _, held.keep held.canonical (.refl _) fun e member => ?_⟩
    exact (List.mem_filter.1 member).1
  | intern blocks => exact ⟨c.catalog.extends_internVector blocks, held.internVector blocks⟩
  | consult found => exact found.cataloged held
  | report report => exact ⟨.refl _, held.canonical, held.globals⟩

theorem Reachable.cataloged (reachable : c.Reachable) : c.Cataloged := by
  induction reachable with
  | initial config target => exact cataloged_initial config target
  | step before done ih => exact ((before.wellFormed.step_changed done).cataloged ih).2

def EachThread (I : Catalog → Thread → Prop) (c : Checker) : Prop :=
  ∀ tid t, c.thread? tid = some t → I c.catalog t

end Checker

theorem Thread.WellFormed.learns {t : Thread} {globals : IntervalMap GlobalRef}
    (wf : t.WellFormed globals) {vector : VectorRef} {blocks : List StackBlock} {access : Access}
    {instruction : UInt64} {l : SiteTable.Located}
    (located : (t.classify globals vector blocks access).thread.stack.top.sites.findOrCreate
      instruction vector = .ok l) :
    t.stack.top.sites.Locates instruction vector l ∧ ∃ hits : RecentHits Registration,
      (t.classify globals vector blocks access).thread = { t with hits := hits } ∧
      ∀ e ∈ hits.entries, e ∈ t.registered.entries := by
  rw [classify_stack] at located
  exact ⟨SiteTable.findOrCreate_ok wf.live.top.1 located,
    classify_thread wf.cached globals vector blocks access⟩

/-- Whether nothing that can become of a thread puts an end to `I`. -/
structure Thread.Upheld (I : Catalog → Thread → Prop) : Prop where
  initial : ∀ catalog capacity, I catalog (.initial capacity)
  grow : ∀ {catalog after t}, I catalog t → catalog.Extends after → I after t
  hits : ∀ {catalog t} hits, I catalog t → I catalog { t with hits := hits }
  start : ∀ {catalog t globals} sp, t.WellFormed globals → I catalog t →
    I catalog { t with stack := t.stack.push (.entered sp 0) }
  call : ∀ {catalog t globals tid hook blocks called}, catalog.Canonical →
    t.WellFormed globals → catalog.vector hook.vector = .ok blocks →
    t.call tid hook blocks = .ok called → I catalog t → I catalog called.thread
  unwind : ∀ {catalog t globals tid sp u}, t.WellFormed globals → t.unwind tid sp = .ok u →
    I catalog t → I catalog u.thread
  learn : ∀ {catalog t globals vector blocks l} instruction access, t.WellFormed globals →
    catalog.vector vector = .ok blocks → t.stack.top.sites.Locates instruction vector l →
    I catalog t → I catalog (t.withTopSites (l.learn
      (l.site.invariant.revised (classification t.registered globals vector blocks access))))
  forget : ∀ {catalog t} doomed, I catalog t → I catalog (t.forget doomed)

/-- What is said of sites is kept up if it holds wherever an access may be found, and is not lost by
forgetting or by adding to the catalog. -/
theorem Thread.upheld_eachSite {P : Catalog → Site → Prop}
    (grow : ∀ {catalog after site}, P catalog site → catalog.Extends after → P after site)
    (forget : ∀ {catalog site}, P catalog site → P catalog (site.withInvariant .unknown))
    (fresh : ∀ {catalog vector blocks} registered globals instruction access,
      catalog.vector vector = .ok blocks → P catalog
        ⟨instruction, vector, classification registered globals vector blocks access⟩) :
    Upheld fun catalog t => t.stack.EachSite (P catalog) where
  initial _ := eachSite_initial
  grow each more := each.mono fun _ held => grow held more
  hits _ each := each
  start sp _ each := each.push sp 0
  call _ _ _ done each := eachSite_call each done
  unwind wf done each := eachSite_unwind wf each done
  learn {catalog t globals vector blocks l} instruction access wf known located each := by
    apply eachSite_learn wf.live.top.1 each located
    rcases located.revised wf.live.top.1
      (classification t.registered globals vector blocks access) with old | gaveWay
    · exact each.top _ old
    · rw [gaveWay]
      exact fresh t.registered globals instruction access known
  forget doomed each := each.forget doomed fun _ => forget

namespace Checker

variable {I : Catalog → Thread → Prop} {c after : Checker} {env : Environment}

namespace EachThread

theorem congr (each : c.EachThread I) (upheld : Thread.Upheld I)
    (threads : after.threads = c.threads) (grown : c.catalog.Extends after.catalog) :
    after.EachThread I :=
  forall_thread?_congr (fun tid t found => upheld.grow (each tid t found) grown) threads

theorem setSlot (each : c.EachThread I) {tid : ThreadId} {slot : Option Thread}
    (kept : ∀ t, slot = some t → I c.catalog t)
    (threads : after.threads = (c.setSlot tid slot).threads)
    (catalog : after.catalog = c.catalog) : after.EachThread I := by
  unfold EachThread
  rw [catalog]
  exact forall_thread?_setSlot each kept threads

theorem setThread (each : c.EachThread I) {tid : ThreadId} {t : Thread} (kept : I c.catalog t)
    (threads : after.threads = (c.setThread tid t).threads)
    (catalog : after.catalog = c.catalog) : after.EachThread I :=
  each.setSlot (fun _ same => Option.some.inj same ▸ kept) threads catalog

theorem step (each : c.EachThread I) (upheld : Thread.Upheld I) (wf : c.WellFormed)
    (held : c.Cataloged) {op : Operation} {o : Outcome Reply} (done : c.step env op = .ok o) :
    o.checker.EachThread I := by
  have grown := ((wf.step_changed done).cataloged held).1
  cases wf.stepped done with
  | createThread parent room => exact each.setThread (upheld.initial _ _) rfl rfl
  | startThread found sp =>
    exact each.setThread (upheld.start sp (wf.threads _ _ found) (each _ _ found)) rfl rfl
  | exitThread tid =>
    show (c.exitThread tid).checker.EachThread I
    rcases c.exitThread_eq tid with same | same
    · rw [same]
      exact each
    · rw [same]
      exact each.setSlot (fun _ absurd => by contradiction) rfl rfl
  | call found known calling =>
    exact each.setThread
      (upheld.call held.canonical (wf.threads _ _ found) known calling (each _ _ found)) rfl rfl
  | unwind found unwinding =>
    exact each.setThread (upheld.unwind (wf.threads _ _ found) unwinding (each _ _ found)) rfl rfl
  | @access tid hook t blocks r l o found known classified located reported =>
    subst classified
    have reporting := reportVerdict_checker reported
    have threads := congrArg Checker.threads reporting
    have catalog := congrArg Checker.catalog reporting
    have threadWf := wf.threads tid t found
    -- `upheld` knows of new hits and of a site that learns, so an access is taken as both in turn.
    obtain ⟨locates, hits, same, cached⟩ := threadWf.learns located
    have learned := upheld.learn hook.instruction hook.access (threadWf.withHits cached) known
      locates (upheld.hits hits (each tid t found))
    apply each.setThread ?_ threads catalog
    rw [same, classify_invariant threadWf.registered threadWf.cached]
    exact learned
  | @classify tid access vector t blocks found known =>
    have threadWf := wf.threads tid t found
    obtain ⟨hits, same, -⟩ := classify_thread threadWf.cached c.globals vector blocks access
    have kept : I c.catalog (t.classify c.globals vector blocks access).thread := by
      rw [same]
      exact upheld.hits hits (each tid t found)
    exact each.setThread kept rfl rfl
  | loadGlobals handle =>
    exact each.congr upheld (registerGlobals_threads c _) grown
  | unmap region =>
    dsimp only at grown ⊢
    rcases c.unmapped_eq region with same | ⟨range, same⟩
    · rw [same]
      exact each
    · rw [same]
      intro tid t found
      rw [thread?_afterUnmap] at found
      obtain ⟨old, there, rfl⟩ := Option.map_eq_some_iff.1 found
      exact upheld.forget _ (each tid old there)
  | vectorAt instruction =>
    have threads := congrArg Checker.threads (vectorAt_consulted env c instruction).sharing
    exact each.congr upheld threads grown
  | instrument instrumented =>
    have threads := congrArg Checker.threads (instrument_lookedUp instrumented).consulted.sharing
    exact each.congr upheld threads grown
  | internVector | takeDiagnostics | summarize => exact each.congr upheld rfl grown

end EachThread

theorem Reachable.eachThread (reachable : c.Reachable) (upheld : Thread.Upheld I) :
    c.EachThread I := by
  induction reachable with
  | initial config target =>
    intro tid t found
    rw [thread?_initial] at found
    contradiction
  | step before done ih => exact ih.step upheld before.wellFormed before.cataloged done

end Checker

end Overrun
