import Overrun.Proofs.Thread.Forgetting

/-! An activation keeps what it has while it is in a call, whatever the callee does. Calls and returns
further up the stack change neither the activations below nor what those have registered. -/

namespace Overrun

/-- The activation as though it had made no call yet. -/
def Activation.atRest (a : Activation) : Activation :=
  { a with spAtCall := 0, fpAtCall := 0, registered := [] }

theorem Activation.eq_of_atRest {a b : Activation} (same : a.atRest = b.atRest)
    (idle : a.registered = []) :
    a = { b with spAtCall := a.spAtCall, fpAtCall := a.fpAtCall, registered := [] } := by
  obtain ⟨creationSp, spAtCall, fpAtCall, returnAddress, registered, sites⟩ := a
  unfold atRest at same
  cases idle
  cases same
  rfl

namespace ShadowStack

/-- Whether two stacks are the same below `depth`, and there but for the call that is being made. -/
structure SameBelow (depth : Nat) (s after : ShadowStack) : Prop where
  below : ∀ k < depth, after.get? k = s.get? k
  here : (after.get? depth).map Activation.atRest = (s.get? depth).map Activation.atRest

variable {s after last : ShadowStack} {depth : Nat}

theorem SameBelow.refl (depth : Nat) (s : ShadowStack) : SameBelow depth s s :=
  ⟨fun _ _ => rfl, rfl⟩

theorem SameBelow.symm (same : SameBelow depth s after) : SameBelow depth after s :=
  ⟨fun k under => (same.below k under).symm, same.here.symm⟩

theorem SameBelow.trans (first : SameBelow depth s after) (second : SameBelow depth after last) :
    SameBelow depth s last :=
  ⟨fun k under => (second.below k under).trans (first.below k under),
    second.here.trans first.here⟩

theorem SameBelow.map {f : Activation → Activation} (same : SameBelow depth s after)
    (restful : ∀ a, (f a).atRest = f a.atRest) : SameBelow depth (s.map f) (after.map f) := by
  constructor
  · intro k under
    rw [get?_map, get?_map, same.below k under]
  · have swap : Activation.atRest ∘ f = f ∘ Activation.atRest := funext restful
    rw [get?_map, get?_map, Option.map_map, Option.map_map, swap, ← Option.map_map,
      ← Option.map_map, same.here]

theorem sameBelow_push (a : Activation) (inside : depth ≤ s.depth) :
    SameBelow depth s (s.push a) := by
  have same : ∀ k ≤ depth, (s.push a).get? k = s.get? k := fun k within => by
    rw [get?_push, if_neg (by omega)]
  exact ⟨fun k under => same k (Nat.le_of_lt under), by rw [same depth (Nat.le_refl _)]⟩

theorem sameBelow_pop (callee caller : Activation) (rest : List Activation)
    (inside : depth ≤ rest.length) :
    SameBelow depth ⟨callee, caller :: rest⟩ ⟨caller, rest⟩ :=
  (sameBelow_push (s := ⟨caller, rest⟩) callee inside).symm

theorem sameBelow_withTop {a : Activation} (inside : depth ≤ s.depth)
    (restful : depth = s.depth → a.atRest = s.top.atRest) :
    SameBelow depth s { s with top := a } := by
  constructor
  · intro k under
    rw [get?_withTop, if_neg (by omega)]
  · rw [get?_withTop]
    split
    · next here =>
      rw [here, get?_depth]
      exact congrArg some (restful here)
    · rfl

end ShadowStack

theorem IntervalMap.filter_place {α : Type} {keep : Entry α → Bool} {entry : Entry α}
    (dropped : keep entry = false) (entries : List (Entry α)) :
    (place entry entries).filter keep = entries.filter keep := by
  induction entries with
  | nil => exact List.filter_cons_of_neg (Bool.eq_false_iff.1 dropped)
  | cons e rest ih =>
    unfold place
    split
    · rw [List.filter_cons, List.filter_cons, ih]
    · exact List.filter_cons_of_neg (Bool.eq_false_iff.1 dropped)

def IntervalMap.ownedBelow (depth : Nat) (m : IntervalMap Registration) :
    List (Entry Registration) :=
  m.entries.filter fun e => e.value.depth < depth

theorem registerBlocks_ownedBelow {tid : ThreadId} {hook : CallHook} {owner depth index : Nat}
    (inside : depth ≤ owner) {m : IntervalMap Registration} {blocks : List StackBlock}
    {r : Registered} (done : registerBlocks tid hook owner index m blocks = .ok r) :
    r.map.ownedBelow depth = m.ownedBelow depth := by
  induction blocks generalizing index m r with
  | nil =>
    cases done
    rfl
  | cons block rest ih =>
    unfold registerBlocks at done
    dsimp only at done
    split at done
    · obtain ⟨later, registered, same⟩ := bind_eq_ok.1 done
      cases same
      have added := ih registered
      exact added
    · next interval fits =>
      split at done
      · contradiction
      · next id after inserted =>
        obtain ⟨later, registered, same⟩ := bind_eq_ok.1 done
        cases same
        obtain ⟨-, -, rfl⟩ := IntervalMap.insert_eq_ok inserted
        have added := ih registered
        rw [added]
        exact IntervalMap.filter_place (decide_eq_false (Nat.not_lt.2 inside)) m.entries

namespace Thread

structure SameBelow (depth : Nat) (t after : Thread) : Prop where
  stack : ShadowStack.SameBelow depth t.stack after.stack
  registered : after.registered.ownedBelow depth = t.registered.ownedBelow depth

variable {t after last : Thread} {globals : IntervalMap GlobalRef} {depth : Nat} {tid : ThreadId}

theorem SameBelow.refl (depth : Nat) (t : Thread) : SameBelow depth t t :=
  ⟨.refl depth t.stack, rfl⟩

theorem SameBelow.trans (first : SameBelow depth t after) (second : SameBelow depth after last) :
    SameBelow depth t last :=
  ⟨first.stack.trans second.stack, second.registered.trans first.registered⟩

theorem SameBelow.forget (same : SameBelow depth t after) (doomed : Invariant → Bool) :
    SameBelow depth (t.forget doomed) (after.forget doomed) :=
  ⟨same.stack.map (f := Activation.forget doomed) fun _ => rfl, same.registered⟩

theorem sameBelow_start (sp : UInt64) (inside : depth ≤ t.depth) :
    SameBelow depth t { t with stack := t.stack.push (.entered sp 0) } :=
  ⟨ShadowStack.sameBelow_push _ inside, rfl⟩

theorem sameBelow_call {hook : CallHook} {blocks : List StackBlock} {called : Called}
    (inside : depth ≤ t.depth) (done : t.call tid hook blocks = .ok called) :
    SameBelow depth t called.thread := by
  obtain ⟨r, registered, same⟩ := bind_eq_ok.1 done
  cases same
  refine ⟨?_, registerBlocks_ownedBelow inside registered⟩
  have calling := ShadowStack.sameBelow_withTop (s := t.stack) (a := { t.stack.top with
    spAtCall := hook.spAtCall, fpAtCall := hook.fp, registered := r.added }) inside fun _ => rfl
  exact calling.trans (ShadowStack.sameBelow_push _ inside)

theorem sameBelow_classify (wf : t.WellFormed globals) (vector : VectorRef)
    (blocks : List StackBlock) (access : Access) :
    SameBelow depth t (t.classify globals vector blocks access).thread := by
  obtain ⟨hits, same, -⟩ := classify_thread wf.cached globals vector blocks access
  rw [same]
  exact ⟨.refl depth t.stack, rfl⟩

theorem sameBelow_withTopSites (sites : SiteTable) (inside : depth < t.depth) :
    SameBelow depth t (t.withTopSites sites) :=
  ⟨ShadowStack.sameBelow_withTop (Nat.le_of_lt inside)
    fun here => absurd here (Nat.ne_of_lt inside), rfl⟩

theorem popAbove_below {sp : UInt64} {callee : Activation} {below : List Activation}
    {m : IntervalMap Registration} {hits : RecentHits Registration} {u : Unwound}
    (wf : WellFormed globals ⟨⟨callee, below⟩, m, hits⟩)
    (done : popAbove tid sp m hits callee below = .ok u) :
    u.thread.depth ≤ below.length ∧
      ∀ depth ≤ u.thread.depth, SameBelow depth ⟨⟨callee, below⟩, m, hits⟩ u.thread := by
  induction below generalizing callee m hits u with
  | nil =>
    unfold popAbove at done
    split at done
    · contradiction
    · cases done
      exact ⟨Nat.le_refl _, fun depth _ => .refl depth _⟩
  | cons caller rest ih =>
    unfold popAbove at done
    split at done
    · obtain ⟨released, releasing, done⟩ := bind_eq_ok.1 done
      obtain ⟨next, popped, same⟩ := bind_eq_ok.1 done
      cases same
      obtain ⟨m', releasing', entries, left⟩ := wf.leave tid
      cases releasing.symm.trans releasing'
      obtain ⟨shallower, same⟩ := ih left popped
      refine ⟨Nat.le_succ_of_le shallower, fun depth within => ?_⟩
      have inside : depth ≤ rest.length := Nat.le_trans within shallower
      have bared := ShadowStack.sameBelow_withTop (s := ⟨caller, rest⟩)
        (a := { caller with registered := [] }) inside fun _ => rfl
      -- What the caller had registered was at its own depth, and that is not below `depth`.
      have kept : released.ownedBelow depth = m.ownedBelow depth := by
        unfold IntervalMap.ownedBelow
        rw [entries, List.filter_filter]
        apply List.filter_congr
        intro e member
        by_cases under : e.value.depth < depth
        · have other : e.value.depth ≠ rest.length := by omega
          simp [under, other]
        · simp [under]
      have stack := (ShadowStack.sameBelow_pop callee caller rest inside).trans bared
      exact SameBelow.trans ⟨stack, kept⟩ (same depth within)
    · cases done
      exact ⟨Nat.le_refl _, fun depth _ => .refl depth _⟩

theorem sameBelow_unwind (wf : t.WellFormed globals) {sp : UInt64} {u : Unwound}
    (done : t.unwind tid sp = .ok u) (inside : depth ≤ u.thread.depth) :
    SameBelow depth t u.thread :=
  (popAbove_below wf done).2 depth inside

theorem WellFormed.ownedBelow_depth (wf : t.WellFormed globals) :
    t.registered.ownedBelow t.depth = t.registered.entries :=
  List.filter_eq_self.2 fun _ member => decide_eq_true (wf.depth_lt member)

end Thread

end Overrun
