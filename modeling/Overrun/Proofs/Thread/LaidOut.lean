import Overrun.Proofs.Block.Growing
import Overrun.Proofs.Thread.Entering

/-! What is registered for a call are the blocks of one vector, each where the pointers that the caller
recorded put it. A frame records other pointers only when it has nothing registered. -/

namespace Overrun

theorem registerBlocks_laidOut {tid : ThreadId} {hook : CallHook} {depth index : Nat}
    {m : IntervalMap Registration} {blocks : List StackBlock} {r : Registered}
    (solid : ∀ block ∈ blocks, 0 < block.size)
    (done : registerBlocks tid hook depth index m blocks = .ok r) :
    (r.map.entries.map Entry.laid).Perm (m.entries.map Entry.laid ++
      laidOut hook.vector hook.spAtCall hook.fp depth index blocks) := by
  obtain ⟨-, lays, -⟩ := registerBlocks_lays solid done
  obtain ⟨new, same, -, entries⟩ := lays.entries
  have placed := entries.map Entry.laid
  rw [List.map_append, same] at placed
  exact placed.trans List.perm_append_comm

namespace IntervalMap

def ownedBy (depth : Nat) (m : IntervalMap Registration) : List (Entry Registration) :=
  m.entries.filter fun e => e.value.depth = depth

variable {m after : IntervalMap Registration} {depth bound : Nat}

theorem mem_ownedBy {e : Entry Registration} :
    e ∈ m.ownedBy depth ↔ e ∈ m.entries ∧ e.value.depth = depth := by
  simp [ownedBy]

theorem ownedBy_congr (same : after.ownedBelow bound = m.ownedBelow bound) (under : depth < bound) :
    after.ownedBy depth = m.ownedBy depth := by
  have within : ∀ m : IntervalMap Registration, m.ownedBy depth =
      (m.ownedBelow bound).filter fun e => e.value.depth = depth := by
    intro m
    unfold ownedBy ownedBelow
    rw [List.filter_filter]
    apply List.filter_congr
    intro e member
    by_cases owned : e.value.depth = depth <;> simp [owned, under]
  rw [within, within, same]

end IntervalMap

theorem registerBlocks_ownedBy {tid : ThreadId} {hook : CallHook} {depth : Nat}
    {m : IntervalMap Registration} {blocks : List StackBlock} {r : Registered}
    (solid : ∀ block ∈ blocks, 0 < block.size) (idle : m.ownedBy depth = [])
    (done : registerBlocks tid hook depth 0 m blocks = .ok r) :
    ((r.map.ownedBy depth).map Entry.laid).Perm
      (laidOut hook.vector hook.spAtCall hook.fp depth 0 blocks) := by
  have owned : ∀ m : IntervalMap Registration, (m.ownedBy depth).map Entry.laid =
      (m.entries.map Entry.laid).filter fun laid => laid.2.depth = depth := by
    intro m
    rw [List.filter_map]
    rfl
  have all : (laidOut hook.vector hook.spAtCall hook.fp depth 0 blocks).filter
      (fun laid => laid.2.depth = depth) =
        laidOut hook.vector hook.spAtCall hook.fp depth 0 blocks := by
    apply List.filter_eq_self.2
    intro laid member
    obtain ⟨position, block, -, -, rfl⟩ := mem_laidOut.1 member
    exact decide_eq_true rfl
  have added := (registerBlocks_laidOut solid done).filter fun laid => laid.2.depth = depth
  rw [List.filter_append, ← owned, ← owned, idle, all] at added
  exact added

namespace Thread

/-- Whether the blocks that the activation at `depth` has registered are those of one vector, where the
pointers it recorded put them. -/
def Placed (catalog : Catalog) (depth : Nat) (t : Thread) : Prop :=
  t.registered.ownedBy depth = [] ∨ ∃ a vector blocks, t.stack.get? depth = some a ∧
    catalog.vector vector = .ok blocks ∧
    ((t.registered.ownedBy depth).map Entry.laid).Perm
      (laidOut vector a.spAtCall a.fpAtCall depth 0 blocks)

variable {catalog grown : Catalog} {t after : Thread} {globals : IntervalMap GlobalRef}
  {depth : Nat} {tid : ThreadId}

theorem Placed.grow (placed : t.Placed catalog depth) (more : catalog.Extends grown) :
    t.Placed grown depth := by
  rcases placed with idle | ⟨a, vector, blocks, found, known, perm⟩
  · exact .inl idle
  · exact .inr ⟨a, vector, blocks, found, more.vector known, perm⟩

theorem Placed.congr (placed : t.Placed catalog depth)
    (registered : after.registered.ownedBy depth = t.registered.ownedBy depth)
    (frame : ∀ a, t.stack.get? depth = some a → ∃ b, after.stack.get? depth = some b ∧
      b.spAtCall = a.spAtCall ∧ b.fpAtCall = a.fpAtCall) :
    after.Placed catalog depth := by
  unfold Placed
  rw [registered]
  rcases placed with idle | ⟨a, vector, blocks, found, known, perm⟩
  · exact .inl idle
  · obtain ⟨b, there, sp, fp⟩ := frame a found
    rw [← sp, ← fp] at perm
    exact .inr ⟨b, vector, blocks, there, known, perm⟩

theorem Placed.below (placed : t.Placed catalog depth) {bound : Nat}
    (same : SameBelow bound t after) (under : depth < bound) : after.Placed catalog depth := by
  refine placed.congr (IntervalMap.ownedBy_congr same.registered under) fun a found => ?_
  exact ⟨a, (same.stack.below depth under).trans found, rfl, rfl⟩

/-- Only an activation that is in a call has anything registered. -/
theorem WellFormed.ownedBy_eq_nil (wf : t.WellFormed globals) (deep : t.depth ≤ depth) :
    t.registered.ownedBy depth = [] := by
  apply List.filter_eq_nil_iff.2
  intro e member
  have below := wf.depth_lt member
  simp only [decide_eq_true_eq]
  omega

theorem WellFormed.placed_of_le (wf : t.WellFormed globals) (deep : t.depth ≤ depth) :
    t.Placed catalog depth :=
  .inl (wf.ownedBy_eq_nil deep)

theorem placed_start (wf : t.WellFormed globals) (placed : t.Placed catalog depth) (sp : UInt64) :
    Placed catalog depth { t with stack := t.stack.push (.entered sp 0) } := by
  by_cases under : depth < t.depth
  · exact placed.below (sameBelow_start sp (Nat.le_refl _)) under
  · exact .inl (wf.ownedBy_eq_nil (Nat.le_of_not_lt under))

theorem placed_call (wf : t.WellFormed globals) {hook : CallHook} {blocks : List StackBlock}
    (solid : ∀ block ∈ blocks, 0 < block.size) (known : catalog.vector hook.vector = .ok blocks)
    {called : Called} (done : t.call tid hook blocks = .ok called)
    (placed : t.Placed catalog depth) : called.thread.Placed catalog depth := by
  have afterWf := wf.call done
  by_cases under : depth < t.depth
  · exact placed.below (sameBelow_call (Nat.le_refl _) done) under
  · obtain ⟨r, registered, same⟩ := bind_eq_ok.1 done
    cases same
    by_cases here : depth = t.depth
    · subst here
      have idle := wf.ownedBy_eq_nil (Nat.le_refl _)
      let calling : ShadowStack := { t.stack with top := { t.stack.top with
        spAtCall := hook.spAtCall, fpAtCall := hook.fp, registered := r.added } }
      have found : (calling.push (.entered hook.spAfter hook.returnAddress)).get? calling.depth =
          some calling.top := by
        rw [ShadowStack.get?_push, if_neg (Nat.ne_of_lt (Nat.lt_succ_self _)),
          ShadowStack.get?_depth]
      exact .inr ⟨calling.top, hook.vector, blocks, found, known,
        registerBlocks_ownedBy solid idle registered⟩
    · exact afterWf.placed_of_le (Nat.lt_of_le_of_ne (Nat.le_of_not_lt under) (Ne.symm here))

theorem placed_unwind (wf : t.WellFormed globals) {sp : UInt64} {u : Unwound}
    (done : t.unwind tid sp = .ok u) (placed : t.Placed catalog depth) :
    u.thread.Placed catalog depth := by
  obtain ⟨other, same, afterWf⟩ := wf.unwind_ok tid sp
  cases done.symm.trans same
  by_cases under : depth < u.thread.depth
  · exact placed.below (sameBelow_unwind wf done (Nat.le_refl _)) under
  · exact afterWf.placed_of_le (Nat.le_of_not_lt under)

theorem placed_withTopSites (placed : t.Placed catalog depth) (sites : SiteTable) :
    (t.withTopSites sites).Placed catalog depth := by
  refine placed.congr rfl fun a found => ?_
  by_cases here : depth = t.stack.depth
  · rw [here, ShadowStack.get?_depth] at found
    cases found
    refine ⟨{ t.stack.top with sites := sites }, ?_, rfl, rfl⟩
    rw [withTopSites, ShadowStack.get?_withTop, if_pos here]
  · refine ⟨a, ?_, rfl, rfl⟩
    rw [withTopSites, ShadowStack.get?_withTop, if_neg here]
    exact found

theorem placed_forget (placed : t.Placed catalog depth) (doomed : Invariant → Bool) :
    (t.forget doomed).Placed catalog depth := by
  refine placed.congr rfl fun a found => ⟨a.forget doomed, ?_, rfl, rfl⟩
  rw [forget_eq, ShadowStack.get?_map, found]
  rfl

end Thread

end Overrun
