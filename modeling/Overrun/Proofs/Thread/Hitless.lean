import Overrun.Proofs.Thread.WellFormed

/-! A thread that keeps no recent hits has to search the registered blocks every time. Everything else
about it is as though it kept them: taking the hits away commutes with all that a thread does. -/

namespace Overrun

def Lookup.hitless : Lookup → Lookup
  | unneeded => .unneeded
  | hit | miss => .miss

theorem Lookup.queries_hitless (l : Lookup) : l.hitless.queries = l.queries := by
  cases l <;> rfl

theorem Lookup.misses_hitless (l : Lookup) : l.hitless.misses = l.queries := by
  cases l <;> rfl

namespace Thread

/-- The same thread without recent hits, and without room for any. -/
def hitless (t : Thread) : Thread :=
  { t with hits := .empty 0 }

def Called.hitless (called : Called) : Called :=
  { called with thread := called.thread.hitless }

def Unwound.hitless (u : Unwound) : Unwound :=
  { u with thread := u.thread.hitless }

def Classified.hitless (r : Classified) : Classified :=
  { r with lookup := r.lookup.hitless, thread := r.thread.hitless }

theorem WellFormed.hitless {globals : IntervalMap GlobalRef} {t : Thread}
    (wf : t.WellFormed globals) : t.hitless.WellFormed globals :=
  wf.withHits fun _ member => absurd member List.not_mem_nil

private theorem empty_or_clear (keep : Bool) :
    (if keep then RecentHits.empty 0 else (RecentHits.empty 0).clear : RecentHits Registration) =
      .empty 0 := by
  split <;> rfl

theorem call_hitless (t : Thread) (tid : ThreadId) (hook : CallHook) (blocks : List StackBlock) :
    t.hitless.call tid hook blocks = (t.call tid hook blocks).map Called.hitless := by
  unfold call
  apply bind_eq_map_bind
  intro r registered
  dsimp only [hitless]
  rw [empty_or_clear]
  rfl

theorem popAbove_hitless (tid : ThreadId) (sp : UInt64) (m : IntervalMap Registration)
    (hits : RecentHits Registration) (callee : Activation) (below : List Activation) :
    popAbove tid sp m (.empty 0) callee below =
      (popAbove tid sp m hits callee below).map Unwound.hitless := by
  induction below generalizing m hits callee with
  | nil =>
    unfold popAbove
    split <;> rfl
  | cons caller rest ih =>
    unfold popAbove
    by_cases above : callee.creationSp < sp
    · simp only [if_pos above]
      apply bind_eq_map_bind
      intro released done
      rw [empty_or_clear, ih released (if caller.registered.isEmpty then hits else hits.clear),
        map_bind]
      apply bind_eq_map_bind
      intro u popped
      rfl
    · simp only [if_neg above]
      rfl

theorem unwind_hitless (t : Thread) (tid : ThreadId) (sp : UInt64) :
    t.hitless.unwind tid sp = (t.unwind tid sp).map Unwound.hitless :=
  popAbove_hitless tid sp t.registered t.hits t.stack.top t.stack.below

theorem registeredAt_hitless {t : Thread} (wf : t.registered.WellFormed) (cached : t.Cached)
    (address : UInt64) :
    t.hitless.registeredAt address =
      ((t.registeredAt address).1, .miss, (t.registeredAt address).2.2.hitless) := by
  have found : (t.registeredAt address).1 = t.registered.covering? address :=
    registeredAt_found wf cached
  obtain ⟨hits, kept, -⟩ := registeredAt_thread cached address
  rw [found, kept]
  unfold registeredAt
  dsimp only [hitless, RecentHits.lookup, RecentHits.empty, RecentHits.promote]
  cases t.registered.covering? address <;> rfl

theorem registeredAt_searches (t : Thread) (address : UInt64) :
    (t.registeredAt address).2.1.hitless = .miss := by
  unfold registeredAt
  split
  · rfl
  · split <;> rfl

theorem classify_hitless {t : Thread} (wf : t.registered.WellFormed) (cached : t.Cached)
    (globals : IntervalMap GlobalRef) (vector : VectorRef) (blocks : List StackBlock)
    (access : Access) :
    t.hitless.classify globals vector blocks access =
      (t.classify globals vector blocks access).hitless := by
  unfold classify
  cases ownFrame? vector access 0 blocks with
  | some own => rfl
  | none =>
    dsimp only
    rw [registeredAt_hitless wf cached]
    unfold Classified.hitless
    rw [registeredAt_searches]

end Thread

end Overrun
