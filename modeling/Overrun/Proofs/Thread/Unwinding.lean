import Overrun.Proofs.Thread.Below
import Overrun.Proofs.Thread.Counting

/-! An unwind ends at the innermost activation that the stack pointer has not risen above, in whatever
order the others were created. That one and those below it stay, with all they have learned and with what
they registered for calls that go on. Whether the stack pointer rises at once or in steps is all the same. -/

namespace Overrun

def Activation.relieved (a : Activation) : Activation :=
  { a with registered := [] }

theorem Activation.relieved_eq {a : Activation} (idle : a.registered = []) : a.relieved = a := by
  obtain ⟨creationSp, spAtCall, fpAtCall, returnAddress, registered, sites⟩ := a
  cases idle
  rfl

/-- Whether the innermost activation that `sp` has not risen above is the one at `depth`. -/
structure ShadowStack.EndsAt (s : ShadowStack) (sp : UInt64) (depth : Nat) : Prop where
  here : ∃ a, s.get? depth = some a ∧ sp ≤ a.creationSp
  above : ∀ k a, depth < k → s.get? k = some a → a.creationSp < sp

theorem ShadowStack.EndsAt.eq {s : ShadowStack} {sp : UInt64} {depth other : Nat}
    (first : s.EndsAt sp depth) (second : s.EndsAt sp other) : depth = other := by
  have within : ∀ {k l : Nat}, s.EndsAt sp k → s.EndsAt sp l → k ≤ l := by
    intro k l ends last
    obtain ⟨a, found, held⟩ := ends.here
    refine Nat.le_of_not_lt fun higher => ?_
    exact UInt64.not_lt.2 held (last.above k a higher found)
  exact Nat.le_antisymm (within first second) (within second first)

theorem releaseBlocks_nextId {tid : ThreadId} {m after : IntervalMap Registration}
    {addresses : List UInt64} (done : releaseBlocks tid m addresses = .ok after) :
    after.nextId = m.nextId := by
  induction addresses generalizing m with
  | nil =>
    cases done
    rfl
  | cons address rest ih =>
    unfold releaseBlocks at done
    split at done
    · contradiction
    · next e middle taken =>
      obtain ⟨found, -, same⟩ := Option.map_eq_some_iff.1 taken
      cases same
      have kept := ih done
      exact kept

namespace Thread

/-- Whether a thread has lost all that was above `depth`, and nothing else but its recent hits. -/
structure CutTo (depth : Nat) (t after : Thread) : Prop where
  level : after.depth = depth
  below : ∀ k < depth, after.stack.get? k = t.stack.get? k
  here : after.stack.get? depth = (t.stack.get? depth).map Activation.relieved
  registered : after.registered =
    ⟨t.registered.entries.filter fun e => e.value.depth < depth, t.registered.nextId⟩

variable {t : Thread} {globals : IntervalMap GlobalRef} {tid : ThreadId} {sp low high : UInt64}
  {m : IntervalMap Registration} {hits : RecentHits Registration} {callee : Activation}
  {below : List Activation} {u v : Unwound}

theorem popAbove_stack (idle : callee.registered = [])
    (done : popAbove tid sp m hits callee below = .ok u) :
    ∃ popped stays rest, callee :: below = popped ++ stays :: rest ∧
      (∀ a ∈ popped, a.creationSp < sp) ∧ sp ≤ stays.creationSp ∧
      u.thread.stack = ⟨stays.relieved, rest⟩ := by
  induction below generalizing m hits callee u with
  | nil =>
    unfold popAbove at done
    split at done
    · contradiction
    · next ends =>
      cases done
      refine ⟨[], callee, [], rfl, fun _ absurd => by contradiction, UInt64.not_lt.1 ends, ?_⟩
      rw [Activation.relieved_eq idle]
  | cons caller rest ih =>
    unfold popAbove at done
    split at done
    · next above =>
      obtain ⟨released, -, done⟩ := bind_eq_ok.1 done
      obtain ⟨later, popping, same⟩ := bind_eq_ok.1 done
      cases same
      obtain ⟨popped, stays, last, split, all, ends, stack⟩ := ih rfl popping
      -- The caller has been relieved by now, whether it is the one that stays or not.
      cases popped with
      | nil =>
        cases split
        refine ⟨[callee], caller, rest, rfl, ?_, ends, stack⟩
        intro a member
        cases List.mem_singleton.1 member
        exact above
      | cons first others =>
        cases split
        refine ⟨callee :: caller :: others, stays, last, rfl, ?_, ends, stack⟩
        intro a member
        rcases List.mem_cons.1 member with rfl | member
        · exact above
        · rcases List.mem_cons.1 member with rfl | member
          · exact all a.relieved (.head _)
          · exact all a (.tail _ member)
    · next ends =>
      cases done
      refine ⟨[], callee, caller :: rest, rfl, fun _ absurd => by contradiction,
        UInt64.not_lt.1 ends, ?_⟩
      rw [Activation.relieved_eq idle]

theorem popAbove_nextId (done : popAbove tid sp m hits callee below = .ok u) :
    u.thread.registered.nextId = m.nextId := by
  induction below generalizing m hits callee u with
  | nil =>
    unfold popAbove at done
    split at done
    · contradiction
    · cases done
      rfl
  | cons caller rest ih =>
    unfold popAbove at done
    split at done
    · obtain ⟨released, releasing, done⟩ := bind_eq_ok.1 done
      obtain ⟨later, popping, same⟩ := bind_eq_ok.1 done
      cases same
      exact (ih popping).trans (releaseBlocks_nextId releasing)
    · cases done
      rfl

theorem endsAt_of_append {s : ShadowStack} {popped rest : List Activation} {stays : Activation}
    (split : s.top :: s.below = popped ++ stays :: rest)
    (all : ∀ a ∈ popped, a.creationSp < sp) (ends : sp ≤ stays.creationSp) :
    s.EndsAt sp rest.length ∧ s.get? rest.length = some stays ∧
      ∀ k < rest.length, s.get? k = rest.reverse[k]? := by
  have frames : s.frames = rest.reverse ++ stays :: popped.reverse := by
    unfold ShadowStack.frames
    rw [split, List.reverse_append, List.reverse_cons, List.append_assoc]
    rfl
  have here : s.get? rest.length = some stays := by
    unfold ShadowStack.get?
    rw [frames, List.getElem?_append_right (by simp)]
    simp
  refine ⟨⟨⟨stays, here, ends⟩, fun k a higher found => ?_⟩, here, fun k under => ?_⟩
  · unfold ShadowStack.get? at found
    have beyond : rest.reverse.length ≤ k := by
      rw [List.length_reverse]
      exact Nat.le_of_lt higher
    rw [frames, List.getElem?_append_right beyond, List.getElem?_cons, if_neg (by simp; omega)]
      at found
    exact all a (List.mem_reverse.1 (List.mem_of_getElem? found))
  · unfold ShadowStack.get?
    rw [frames, List.getElem?_append_left (by simpa using under)]

theorem WellFormed.unwind_cut (wf : t.WellFormed globals) (tid : ThreadId) (sp : UInt64) :
    ∃ depth u, t.unwind tid sp = .ok u ∧ t.stack.EndsAt sp depth ∧ t.CutTo depth u.thread := by
  obtain ⟨u, done, afterWf⟩ := wf.unwind_ok tid sp
  obtain ⟨popped, stays, rest, split, all, ends, stack⟩ := popAbove_stack wf.idle done
  obtain ⟨endsAt, here, under⟩ := endsAt_of_append split all ends
  have level : u.thread.depth = rest.length := congrArg ShadowStack.depth stack
  have kept := (sameBelow_unwind wf done (Nat.le_refl _)).registered
  rw [afterWf.ownedBelow_depth, level] at kept
  refine ⟨rest.length, u, done, endsAt, level, fun k below => ?_, ?_, ?_⟩
  · have apart : k ≠ u.thread.stack.depth := fun same => Nat.ne_of_lt below (same.trans level)
    rw [ShadowStack.get?_eq, if_neg apart, stack, under k below]
  · rw [here, ← level]
    exact u.thread.stack.get?_depth.trans (congrArg (some ·.top) stack)
  · have counted : u.thread.registered.nextId = t.registered.nextId := popAbove_nextId done
    unfold IntervalMap.ownedBelow at kept
    rw [← kept, ← counted]

theorem unwind_settled (tid : ThreadId) (settled : sp ≤ t.stack.top.creationSp) :
    t.unwind tid sp = .ok ⟨t, 0, 0, []⟩ := by
  have stays := UInt64.not_lt.2 settled
  obtain ⟨⟨top, below⟩, registered, hits⟩ := t
  unfold unwind popAbove
  cases below with
  | nil => exact if_neg stays
  | cons caller rest => exact if_neg stays

theorem CutTo.settled {after : Thread} {depth : Nat} (cut : t.CutTo depth after)
    (ends : t.stack.EndsAt sp depth) : sp ≤ after.stack.top.creationSp := by
  obtain ⟨a, found, held⟩ := ends.here
  have here := cut.here
  rw [found, ← cut.level] at here
  have top : after.stack.top = a.relieved := Option.some.inj (after.stack.get?_depth.symm.trans here)
  rw [top]
  exact held

theorem CutTo.precedes {after : Thread} {depth : Nat} (cut : t.CutTo depth after) :
    t.registered.Precedes after.registered := by
  rw [cut.registered]
  exact ⟨Nat.le_refl _, fun _ member _ => (List.mem_filter.1 member).1⟩

/-- Going on from where an unwind ended comes to the same as going there at once. -/
theorem popAbove_popAbove (first : popAbove tid low m hits callee below = .ok u)
    (higher : low ≤ high) (second : u.thread.unwind tid high = .ok v) :
    ∃ w, popAbove tid high m hits callee below = .ok w ∧ w.thread = v.thread ∧
      w.popped = u.popped + v.popped ∧ w.released = u.released + v.released := by
  -- Where the first unwind stops at once, all the popping is left to the second.
  have stayed : ∀ rest : Thread, rest.unwind tid high = .ok v → ∃ w,
      rest.unwind tid high = .ok w ∧ w.thread = v.thread ∧ w.popped = 0 + v.popped ∧
        w.released = 0 + v.released :=
    fun rest done => ⟨v, done, rfl, (Nat.zero_add _).symm, (Nat.zero_add _).symm⟩
  induction below generalizing m hits callee u with
  | nil =>
    unfold popAbove at first
    split at first
    · contradiction
    · cases first
      exact stayed _ second
  | cons caller rest ih =>
    unfold popAbove at first
    split at first
    · next above =>
      obtain ⟨released, releasing, first⟩ := bind_eq_ok.1 first
      obtain ⟨next, popping, same⟩ := bind_eq_ok.1 first
      cases same
      obtain ⟨w, popped, thread, pops, releases⟩ := ih popping second
      unfold popAbove
      rw [if_pos (UInt64.lt_of_lt_of_le above higher), releasing]
      simp only [bind, Except.bind]
      rw [popped]
      refine ⟨_, rfl, thread, ?_, ?_⟩
      · dsimp only
        omega
      · dsimp only
        omega
    · cases first
      exact stayed _ second

end Thread

end Overrun
