import Overrun.Proofs.Learned.Probing
import Overrun.Proofs.Thread.Classification
import Overrun.Proofs.Thread.Frames

/-! What holds of a thread at all times: its registered blocks are disjoint and each is listed by the
activation that registered it, the innermost activation lists nothing, the bottom is never left, and
whatever an activation has learned is live. Calling, unwinding, accessing and forgetting keep it so. -/

namespace Overrun

/-- Whether the sites of an activation at `depth` are found by address and have learned nothing that
is gone. -/
def SiteTable.Live (registered : IntervalMap Registration) (globals : IntervalMap GlobalRef)
    (depth : Nat) (t : SiteTable) : Prop :=
  t.WellFormed ∧ ∀ site ∈ t.sites, site.invariant.Live registered globals depth

namespace SiteTable

variable {registered after : IntervalMap Registration}
  {globals globalsAfter : IntervalMap GlobalRef} {depth : Nat} {t : SiteTable}

theorem live_empty : (∅ : SiteTable).Live registered globals depth := by
  refine ⟨wellFormed_empty, fun site member => ?_⟩
  rw [sites_empty] at member
  contradiction

theorem Live.keep (live : t.Live registered globals depth)
    (kept : ∀ e ∈ registered.entries, e.value.depth < depth → e ∈ after.entries)
    (globalsKept : ∀ e ∈ globals.entries, e ∈ globalsAfter.entries) :
    t.Live after globalsAfter depth :=
  ⟨live.1, fun site member => (live.2 site member).keep kept globalsKept⟩

theorem Live.located (live : t.Live registered globals depth) {address : UInt64}
    {vector : VectorRef} {l : Located} (located : t.Locates address vector l) :
    l.site.invariant.Live registered globals depth := by
  rw [located.invariant_eq]
  cases known : t.find? address with
  | none => trivial
  | some site => exact live.2 site ((find?_eq_some_iff live.1).1 known).1

theorem Live.learn (live : t.Live registered globals depth) {address : UInt64}
    {vector : VectorRef} {l : Located} (located : t.Locates address vector l)
    {invariant : Invariant} (fresh : invariant.Live registered globals depth) :
    (l.learn invariant).Live registered globals depth :=
  ⟨located.learn_wellFormed invariant, (located.replaces live.1 invariant).forall_mem fresh live.2⟩

/-- Forgetting whatever named a global that went makes up for its going. -/
theorem Live.forget (live : t.Live registered globals depth) {doomed : Invariant → Bool}
    (kept : ∀ e ∈ globals.entries,
      doomed (.global e.id e.interval.span e.value) = false → e ∈ globalsAfter.entries) :
    (t.forget doomed).Live registered globalsAfter depth := by
  refine ⟨forget_wellFormed live.1 doomed, fun site member => ?_⟩
  rw [sites_forget] at member
  obtain ⟨old, oldMember, rfl⟩ := List.mem_map.1 member
  have oldLive := live.2 old oldMember
  unfold forgotten
  split
  · trivial
  · next spared =>
    cases learned : old.invariant with
    | unset | unknown | ownFrame _ _ => trivial
    | callerFrame node span block owner =>
      rw [learned] at oldLive
      exact oldLive
    | global node span block =>
      rw [learned] at oldLive spared
      obtain ⟨iv, there, rfl⟩ := oldLive
      exact ⟨iv, kept _ there (Bool.eq_false_iff.2 spared), rfl⟩

end SiteTable

namespace ShadowStack

theorem listed_map {f : Activation → Activation} (same : ∀ a, (f a).registered = a.registered)
    (activations : List Activation) : listed (activations.map f) = listed activations := by
  induction activations with
  | nil => rfl
  | cons a below ih => rw [List.map_cons, listed_cons, listed_cons, ih, same, List.length_map]

def Live (registered : IntervalMap Registration) (globals : IntervalMap GlobalRef)
    (s : ShadowStack) : Prop :=
  ∀ depth a, s.get? depth = some a → a.sites.Live registered globals depth

variable {registered after : IntervalMap Registration}
  {globals globalsAfter : IntervalMap GlobalRef} {s : ShadowStack} {a : Activation}

theorem Live.top (live : s.Live registered globals) :
    s.top.sites.Live registered globals s.depth :=
  live s.depth s.top s.get?_depth

theorem Live.keep (live : s.Live registered globals)
    (kept : ∀ e ∈ registered.entries, e.value.depth < s.depth → e ∈ after.entries)
    (globalsKept : ∀ e ∈ globals.entries, e ∈ globalsAfter.entries) :
    s.Live after globalsAfter := by
  intro depth a found
  apply (live depth a found).keep ?_ globalsKept
  intro e member below
  exact kept e member (Nat.lt_of_lt_of_le below (le_depth_of_get? found))

theorem live_push :
    (s.push a).Live registered globals ↔
      a.sites.Live registered globals (s.depth + 1) ∧ s.Live registered globals := by
  constructor
  · intro live
    refine ⟨live.top, fun depth b found => live depth b ?_⟩
    rw [get?_push, if_neg (Nat.ne_of_lt (Nat.lt_succ_of_le (le_depth_of_get? found)))]
    exact found
  · rintro ⟨new, live⟩ depth b found
    rw [get?_push] at found
    split at found
    · next here =>
      cases found
      rw [here]
      exact new
    · exact live depth b found

theorem Live.withTop (live : s.Live registered globals) (a : Activation)
    (new : a.sites.Live registered globals s.depth) :
    ({ s with top := a } : ShadowStack).Live registered globals := by
  intro depth b found
  rw [get?_withTop] at found
  split at found
  · next here =>
    cases found
    rw [here]
    exact new
  · exact live depth b found

end ShadowStack

namespace Thread

structure WellFormed (globals : IntervalMap GlobalRef) (t : Thread) : Prop where
  registered : t.registered.WellFormed
  cached : t.Cached
  grounded : t.stack.Grounded
  idle : t.stack.top.registered = []
  balanced : t.registered.Matches t.listings
  live : t.stack.Live t.registered globals

theorem wellFormed_initial (globals : IntervalMap GlobalRef) (capacity : Nat) :
    (initial capacity).WellFormed globals := by
  refine ⟨IntervalMap.wellFormed_empty, fun e member => ?_, ⟨.sentinel, rfl, rfl⟩, rfl,
    List.Perm.refl _, fun depth a found => ?_⟩
  · exact absurd member List.not_mem_nil
  · have zero : depth = 0 := Nat.le_zero.1 (ShadowStack.le_depth_of_get? found)
    subst zero
    cases found
    exact SiteTable.live_empty

theorem listings_forget (doomed : Invariant → Bool) (t : Thread) :
    (t.forget doomed).listings = t.listings :=
  ShadowStack.listed_map (f := fun a => { a with sites := a.sites.forget doomed }) (fun _ => rfl)
    (t.stack.top :: t.stack.below)

namespace WellFormed

variable {globals after : IntervalMap GlobalRef} {t : Thread}

theorem listings_eq (wf : t.WellFormed globals) :
    t.listings = ShadowStack.listed t.stack.below := by
  rw [Thread.listings_eq, ShadowStack.listed_cons, wf.idle, List.map_nil, List.append_nil]

theorem depth_lt (wf : t.WellFormed globals) {e : Entry Registration}
    (member : e ∈ t.registered.entries) : e.value.depth < t.depth := by
  have listed := wf.balanced.mem_iff.2 ⟨e, member, rfl⟩
  rw [wf.listings_eq] at listed
  exact ShadowStack.depth_lt_of_mem_listed listed

theorem keep (wf : t.WellFormed globals) (kept : ∀ e ∈ globals.entries, e ∈ after.entries) :
    t.WellFormed after :=
  { wf with live := wf.live.keep (fun _ member _ => member) kept }

theorem withHits (wf : t.WellFormed globals) {hits : RecentHits Registration}
    (cached : ∀ e ∈ hits.entries, e ∈ t.registered.entries) :
    WellFormed globals { t with hits := hits } :=
  { wf with cached := cached }

/-- The caller may list what has just been registered, as long as a callee is entered. -/
theorem enter (wf : t.WellFormed globals) (caller : Activation) (sp returnAddress : UInt64)
    {m : IntervalMap Registration} {hits : RecentHits Registration}
    (sameSp : caller.creationSp = t.stack.top.creationSp)
    (sameSites : caller.sites = t.stack.top.sites) (mWf : m.WellFormed)
    (kept : ∀ e ∈ t.registered.entries, e ∈ m.entries)
    (cached : ∀ e ∈ hits.entries, e ∈ m.entries)
    (balanced : m.Matches (t.listings ++ caller.registered.map (·, t.depth))) :
    WellFormed globals
      ⟨({ t.stack with top := caller } : ShadowStack).push (.entered sp returnAddress), m, hits⟩ := by
  refine ⟨mWf, cached, ShadowStack.grounded_push.2 (wf.grounded.withTop sameSp), rfl, ?_, ?_⟩
  · rw [wf.listings_eq] at balanced
    rw [Thread.listings_eq]
    change IntervalMap.Matches m
      (ShadowStack.listed (.entered sp returnAddress :: caller :: t.stack.below))
    rw [ShadowStack.listed_cons, ShadowStack.listed_cons]
    change IntervalMap.Matches m (_ ++ [])
    rw [List.append_nil]
    exact balanced
  · have top := wf.live.top
    rw [← sameSites] at top
    have live := (wf.live.withTop caller top).keep (fun e member _ => kept e member)
      (fun _ member => member)
    exact ShadowStack.live_push.2 ⟨SiteTable.live_empty, live⟩

theorem start (wf : t.WellFormed globals) (sp : UInt64) :
    WellFormed globals { t with stack := t.stack.push (.entered sp 0) } := by
  apply wf.enter t.stack.top sp 0 rfl rfl wf.registered (fun _ member => member) wf.cached
  rw [wf.idle, List.map_nil, List.append_nil]
  exact wf.balanced

theorem call (wf : t.WellFormed globals) {tid : ThreadId} {hook : CallHook}
    {blocks : List StackBlock} {called : Called} (done : t.call tid hook blocks = .ok called) :
    called.thread.WellFormed globals := by
  obtain ⟨r, registered, same⟩ := bind_eq_ok.1 done
  cases same
  obtain ⟨mWf, kept, balanced⟩ := registerBlocks_ok wf.registered wf.balanced registered
  apply wf.enter { t.stack.top with
    spAtCall := hook.spAtCall, fpAtCall := hook.fp, registered := r.added }
    hook.spAfter hook.returnAddress rfl rfl mWf kept ?_ balanced
  intro e member
  split at member
  · exact kept e (wf.cached e member)
  · exact absurd member List.not_mem_nil

theorem leave {callee caller : Activation} {below : List Activation} {m : IntervalMap Registration}
    {hits : RecentHits Registration} (tid : ThreadId)
    (wf : WellFormed globals ⟨⟨callee, caller :: below⟩, m, hits⟩) :
    ∃ released : IntervalMap Registration,
      releaseBlocks tid m caller.registered = .ok released ∧
      released.entries = m.entries.filter (fun e => e.value.depth ≠ below.length) ∧
      WellFormed globals ⟨⟨{ caller with registered := [] }, below⟩, released,
        if caller.registered.isEmpty then hits else hits.clear⟩ := by
  have balanced := wf.balanced
  rw [wf.listings_eq] at balanced
  dsimp only at balanced
  rw [ShadowStack.listed_cons] at balanced
  have split : m.Matches (caller.registered.map (·, below.length) ++ ShadowStack.listed below) :=
    List.perm_append_comm.trans balanced
  have elsewhere : ∀ listing ∈ ShadowStack.listed below, listing.2 ≠ below.length :=
    fun listing member => Nat.ne_of_lt (ShadowStack.depth_lt_of_mem_listed member)
  have released := releaseBlocks_eq tid wf.registered split elsewhere
  have stack : (⟨callee, caller :: below⟩ : ShadowStack) =
      ShadowStack.push ⟨caller, below⟩ callee := rfl
  have grounded := wf.grounded
  have live := wf.live
  rw [stack] at grounded live
  have callerLive := (ShadowStack.live_push.1 live).2
  refine ⟨_, released, rfl, wf.registered.sublist List.filter_sublist, ?_,
    (ShadowStack.grounded_push.1 grounded).withTop rfl, rfl, ?_, ?_⟩
  -- Hits are kept only if the caller lists nothing, and then none of them is of its depth.
  · intro e member
    split at member
    · next none =>
      have listing := split.mem_iff.2 ⟨e, wf.cached e member, rfl⟩
      rw [List.isEmpty_iff.1 none] at listing
      exact List.mem_filter.2 ⟨wf.cached e member, decide_eq_true (elsewhere e.listing listing)⟩
    · exact absurd member List.not_mem_nil
  · rw [Thread.listings_eq, ShadowStack.listed_cons]
    change IntervalMap.Matches _ (ShadowStack.listed below ++ [])
    rw [List.append_nil]
    exact split.release elsewhere
  · apply (callerLive.withTop { caller with registered := [] } callerLive.top).keep ?_
      (fun _ member => member)
    intro e member inner
    exact List.mem_filter.2 ⟨member, decide_eq_true (Nat.ne_of_lt inner)⟩

/-- An unwind always comes to an end, at the latest at the bottom. -/
theorem popAbove_ok (tid : ThreadId) (sp : UInt64) {callee : Activation} {below : List Activation}
    {m : IntervalMap Registration} {hits : RecentHits Registration}
    (wf : WellFormed globals ⟨⟨callee, below⟩, m, hits⟩) :
    ∃ u, popAbove tid sp m hits callee below = .ok u ∧ u.thread.WellFormed globals := by
  induction below generalizing callee m hits with
  | nil =>
    unfold popAbove
    obtain ⟨a, found, highest⟩ := wf.grounded
    cases found
    dsimp only at highest
    rw [highest, if_neg (UInt64.not_lt.2 (le_topAddress sp))]
    exact ⟨_, rfl, wf⟩
  | cons caller rest ih =>
    unfold popAbove
    split
    · obtain ⟨released, done, -, left⟩ := wf.leave tid
      obtain ⟨u, popped, unwound⟩ := ih left
      rw [done]
      simp only [bind, Except.bind]
      rw [popped]
      exact ⟨_, rfl, unwound⟩
    · exact ⟨_, rfl, wf⟩

theorem unwind_ok (wf : t.WellFormed globals) (tid : ThreadId) (sp : UInt64) :
    ∃ u, t.unwind tid sp = .ok u ∧ u.thread.WellFormed globals :=
  wf.popAbove_ok tid sp

theorem classify (wf : t.WellFormed globals) (vector : VectorRef) (blocks : List StackBlock)
    (access : Access) : (t.classify globals vector blocks access).thread.WellFormed globals := by
  obtain ⟨hits, same, cached⟩ := classify_thread wf.cached globals vector blocks access
  rw [same]
  exact wf.withHits cached

theorem classify_live (wf : t.WellFormed globals) (vector : VectorRef) (blocks : List StackBlock)
    (access : Access) :
    (t.classify globals vector blocks access).invariant.Live t.registered globals t.depth := by
  rw [classify_invariant wf.registered wf.cached]
  exact classification_live fun e member => wf.depth_lt member

theorem withTopSites (wf : t.WellFormed globals) {sites : SiteTable}
    (live : sites.Live t.registered globals t.depth) :
    (t.withTopSites sites).WellFormed globals := by
  refine ⟨wf.registered, wf.cached, wf.grounded.withTop rfl, wf.idle, ?_, wf.live.withTop _ live⟩
  have balanced := wf.balanced
  rw [Thread.listings_eq, ShadowStack.listed_cons] at balanced ⊢
  exact balanced

theorem forget (wf : t.WellFormed globals) {doomed : Invariant → Bool}
    (kept : ∀ e ∈ globals.entries,
      doomed (.global e.id e.interval.span e.value) = false → e ∈ after.entries) :
    (t.forget doomed).WellFormed after := by
  refine ⟨wf.registered, wf.cached, ?_, wf.idle, ?_, ?_⟩
  · obtain ⟨a, found, highest⟩ := wf.grounded
    unfold ShadowStack.Grounded Thread.forget
    rw [ShadowStack.get?_map, found]
    exact ⟨_, rfl, highest⟩
  · rw [listings_forget]
    exact wf.balanced
  · intro depth a found
    unfold Thread.forget at found
    rw [ShadowStack.get?_map] at found
    obtain ⟨old, oldFound, rfl⟩ := Option.map_eq_some_iff.1 found
    exact (wf.live depth old oldFound).forget kept

end WellFormed

end Thread

end Overrun
