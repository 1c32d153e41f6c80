import Overrun.Proofs.Thread.WellFormed

/-! What the counters count of a thread: its depth and its registered blocks grow by what a call is said to
add, and shrink by what an unwind is said to take away. -/

namespace Overrun

namespace IntervalMap

variable {α : Type} {m after : IntervalMap α}

theorem size_insert {iv : Interval} {value : α} {id : NodeId}
    (inserted : m.insert iv value = .ok (id, after)) : after.size = m.size + 1 := by
  obtain ⟨-, -, rfl⟩ := insert_eq_ok inserted
  exact (perm_place _ m.entries).length_eq

theorem size_takeAt? {address : UInt64} {e : Entry α} (taken : m.takeAt? address = some (e, after)) :
    m.size = after.size + 1 := by
  obtain ⟨found, covered, same⟩ := Option.map_eq_some_iff.1 taken
  cases same
  obtain ⟨member, holds⟩ := covering?_mem covered
  have fewer := List.length_eraseP_of_mem (p := fun e : Entry α => address ∈ e.interval) member
    (decide_eq_true holds)
  have some := List.length_pos_of_mem member
  unfold size
  dsimp only
  rw [fewer]
  omega

theorem size_takeRange (m : IntervalMap α) (range : Interval) :
    m.size = (m.takeRange range).1.length + (m.takeRange range).2.size := by
  unfold size takeRange
  dsimp only
  rw [← List.countP_eq_length_filter, ← List.countP_eq_length_filter]
  rw [List.length_eq_countP_add_countP fun e : Entry α => decide (e.interval.Overlaps range)]
  simp only [decide_eq_true_eq]

end IntervalMap

theorem size_registerBlocks {tid : ThreadId} {hook : CallHook} {depth index : Nat}
    {m : IntervalMap Registration} {blocks : List StackBlock} {r : Registered}
    (done : registerBlocks tid hook depth index m blocks = .ok r) :
    r.map.size = m.size + r.added.length := by
  induction blocks generalizing index m r with
  | nil =>
    cases done
    rfl
  | cons block rest ih =>
    unfold registerBlocks at done
    dsimp only at done
    split at done
    · obtain ⟨later, registered, same⟩ := bind_eq_ok.1 done
      cases same
      have step := ih registered
      exact step
    · split at done
      · contradiction
      · next id after inserted =>
        obtain ⟨later, registered, same⟩ := bind_eq_ok.1 done
        cases same
        show later.map.size = m.size + (later.added.length + 1)
        rw [ih registered, IntervalMap.size_insert inserted]
        omega

theorem size_releaseBlocks {tid : ThreadId} {m after : IntervalMap Registration}
    {addresses : List UInt64} (done : releaseBlocks tid m addresses = .ok after) :
    m.size = after.size + addresses.length := by
  induction addresses generalizing m with
  | nil =>
    cases done
    rfl
  | cons address rest ih =>
    unfold releaseBlocks at done
    split at done
    · contradiction
    · next e middle taken =>
      rw [IntervalMap.size_takeAt? taken, ih done, List.length_cons]
      omega

namespace Thread

variable {t : Thread} {tid : ThreadId}

theorem count_call {hook : CallHook} {blocks : List StackBlock} {called : Called}
    (done : t.call tid hook blocks = .ok called) :
    called.thread.depth = t.depth + 1 ∧
      called.thread.registered.size = t.registered.size + called.added := by
  obtain ⟨r, registered, same⟩ := bind_eq_ok.1 done
  cases same
  exact ⟨rfl, size_registerBlocks registered⟩

theorem count_popAbove {sp : UInt64} {m : IntervalMap Registration}
    {hits : RecentHits Registration} {callee : Activation} {below : List Activation} {u : Unwound}
    (done : popAbove tid sp m hits callee below = .ok u) :
    below.length = u.thread.depth + u.popped ∧
      m.size = u.thread.registered.size + u.released := by
  induction below generalizing m hits callee u with
  | nil =>
    unfold popAbove at done
    split at done
    · contradiction
    · cases done
      exact ⟨rfl, rfl⟩
  | cons caller rest ih =>
    unfold popAbove at done
    split at done
    · obtain ⟨released, releasing, done⟩ := bind_eq_ok.1 done
      obtain ⟨later, popping, same⟩ := bind_eq_ok.1 done
      cases same
      obtain ⟨depth, size⟩ := ih popping
      dsimp only
      rw [List.length_cons, depth, size_releaseBlocks releasing, size]
      omega
    · cases done
      exact ⟨rfl, rfl⟩

theorem count_unwind {sp : UInt64} {u : Unwound} (done : t.unwind tid sp = .ok u) :
    t.depth = u.thread.depth + u.popped ∧
      t.registered.size = u.thread.registered.size + u.released :=
  count_popAbove done

theorem count_classify (t : Thread) (globals : IntervalMap GlobalRef) (vector : VectorRef)
    (blocks : List StackBlock) (access : Access) :
    (t.classify globals vector blocks access).thread.depth = t.depth ∧
      (t.classify globals vector blocks access).thread.registered = t.registered := by
  refine ⟨congrArg ShadowStack.depth (classify_stack t globals vector blocks access), ?_⟩
  unfold Thread.classify
  cases ownFrame? vector access 0 blocks with
  | some own => rfl
  | none =>
    dsimp only
    unfold Thread.registeredAt
    split
    · rfl
    · split <;> rfl

theorem depth_forget (t : Thread) (doomed : Invariant → Bool) : (t.forget doomed).depth = t.depth :=
  List.length_map _

theorem kind_of_callerFrame? {found : Option (Entry Registration)} {access : Access} {inv : Invariant}
    (held : callerFrame? found access = some inv) : inv.kind = .callerFrame := by
  obtain ⟨e, -, held⟩ := Option.bind_eq_some_iff.1 held
  split at held
  · cases held
    rfl
  · contradiction

theorem lookup_registeredAt (t : Thread) (address : UInt64) :
    (t.registeredAt address).2.1 ≠ .unneeded := by
  unfold registeredAt
  split
  · exact fun absurd => by contradiction
  · split <;> exact fun absurd => by contradiction

/-- An access is always classified as one of the kinds that are counted. The registered blocks are searched
just for those that no block of the frame holds. -/
theorem classify_kind (t : Thread) (globals : IntervalMap GlobalRef) (vector : VectorRef)
    (blocks : List StackBlock) (access : Access) :
    let r := t.classify globals vector blocks access
    r.invariant.kind = .ownFrame ∧ r.lookup = .unneeded ∨
      (r.invariant.kind = .callerFrame ∨ r.invariant.kind = .global ∨ r.invariant.kind = .unknown) ∧
        r.lookup ≠ .unneeded := by
  unfold Thread.classify
  cases own : ownFrame? vector access 0 blocks with
  | some inv =>
    obtain ⟨before, block, after, -, -, -, rfl⟩ := ownFrame?_eq_some own
    exact .inl ⟨rfl, rfl⟩
  | none =>
    refine .inr ⟨?_, lookup_registeredAt t access.span.start⟩
    dsimp only
    cases caller : callerFrame? (t.registeredAt access.span.start).1 access with
    | some inv => exact .inl (kind_of_callerFrame? caller)
    | none =>
      cases shared : global? globals access with
      | some inv =>
        obtain ⟨e, -, -, rfl⟩ := global?_some shared
        exact .inr (.inl rfl)
      | none => exact .inr (.inr rfl)

end Thread

end Overrun
