import Overrun.Proofs.Thread.Live
import Overrun.Thread.Classify

/-! The recent hits shorten the search among registered blocks and never change what it finds. What an
access is classified as is therefore a matter of the blocks alone: the block found holds all of the
access, and it is the first of its frame, or the only registered or global one, that does. -/

namespace Overrun

namespace RecentHits

variable {α : Type}

/-- Whether a list is another in which `hit` has gone one place forward, unless it is at the front. -/
inductive Promotes {β : Type} (hit : β) : List β → List β → Prop where
  | front (rest : List β) : Promotes hit (hit :: rest) (hit :: rest)
  | forward (before : List β) (previous : β) (rest : List β) :
      Promotes hit (before ++ previous :: hit :: rest) (before ++ hit :: previous :: rest)

theorem Promotes.perm {β : Type} {hit : β} {l after : List β} (promotes : Promotes hit l after) :
    after.Perm l := by
  cases promotes with
  | front rest => exact .refl _
  | forward before previous rest => exact (List.Perm.swap previous hit rest).append_left before

theorem Promotes.mem {β : Type} {hit : β} {l after : List β} (promotes : Promotes hit l after) :
    hit ∈ l := by
  cases promotes <;> simp

theorem promote_some {β : Type} {p : β → Bool} {l after : List β} {hit : β}
    (found : promote p l = some (hit, after)) : Promotes hit l after ∧ p hit = true := by
  fun_induction promote p l generalizing hit after with
  | case1 => contradiction
  | case2 x passes =>
    cases found
    exact ⟨.front [], passes⟩
  | case3 => contradiction
  | case4 x y rest passes =>
    cases found
    exact ⟨.front (y :: rest), passes⟩
  | case5 x y rest failed passes =>
    cases found
    exact ⟨.forward [] x rest, passes⟩
  | case6 x y rest failed failedToo ih =>
    obtain ⟨⟨inner, tail⟩, later, same⟩ := Option.map_eq_some_iff.1 found
    cases same
    obtain ⟨promotes, passes⟩ := ih later
    generalize stood : y :: rest = l at promotes ⊢
    cases promotes with
    | front =>
      cases stood
      exact absurd passes failedToo
    | forward before previous rest => exact ⟨.forward (x :: before) previous rest, passes⟩

theorem promote_none {β : Type} {p : β → Bool} {l : List β} :
    promote p l = none ↔ ∀ x ∈ l, p x = false := by
  fun_induction promote p l <;> simp_all

theorem lookup_eq_some {h after : RecentHits α} {address : UInt64} {hit : Entry α}
    (found : h.lookup address = some (hit, after)) :
    address ∈ hit.interval ∧ Promotes hit h.entries after.entries ∧ after.capacity = h.capacity := by
  obtain ⟨⟨inner, entries⟩, promoted, same⟩ := Option.map_eq_some_iff.1 found
  cases same
  obtain ⟨promotes, passes⟩ := promote_some promoted
  exact ⟨of_decide_eq_true passes, promotes, rfl⟩

theorem lookup_eq_none_iff {h : RecentHits α} {address : UInt64} :
    h.lookup address = none ↔ ∀ e ∈ h.entries, address ∉ e.interval := by
  unfold lookup
  simp [promote_none]

theorem lookup_some {h after : RecentHits α} {address : UInt64} {hit : Entry α}
    (found : h.lookup address = some (hit, after)) :
    after.entries.Perm h.entries ∧ hit ∈ h.entries ∧ address ∈ hit.interval := by
  obtain ⟨holds, promotes, -⟩ := lookup_eq_some found
  exact ⟨promotes.perm, promotes.mem, holds⟩

theorem insert_eq {h : RecentHits α} (hit : Entry α) (some : h.capacity ≠ 0) :
    ∃ front back evicted, h.entries = front ++ back ++ evicted ∧
      evicted.length = (if h.entries.length = h.capacity then 1 else 0) ∧
      front.length = (front ++ back).length / 2 ∧
      h.insert hit = { h with entries := front ++ hit :: back } := by
  unfold insert
  rw [if_neg some]
  split
  · next full =>
    have last : h.entries ≠ [] := fun none => some (by rw [← full, none]; rfl)
    refine ⟨_, _, [h.entries.getLast last], ?_, rfl, ?_, rfl⟩
    · rw [List.take_append_drop, List.dropLast_concat_getLast]
    · rw [List.take_append_drop, List.length_take]
      omega
  · refine ⟨_, _, [], ?_, rfl, ?_, rfl⟩
    · rw [List.take_append_drop, List.append_nil]
    · rw [List.take_append_drop, List.length_take]
      omega

theorem mem_insert {h : RecentHits α} {hit e : Entry α} (member : e ∈ (h.insert hit).entries) :
    e = hit ∨ e ∈ h.entries := by
  by_cases none : h.capacity = 0
  · rw [insert, if_pos none] at member
    exact .inr member
  · obtain ⟨front, back, evicted, stood, -, -, same⟩ := insert_eq hit none
    rw [same] at member
    simp only [List.mem_append, List.mem_cons] at member
    simp only [stood, List.mem_append]
    rcases member with early | new | late
    · exact .inr (.inl (.inl early))
    · exact .inl new
    · exact .inr (.inl (.inr late))

end RecentHits

namespace Thread

def Cached (t : Thread) : Prop :=
  ∀ e ∈ t.hits.entries, e ∈ t.registered.entries

variable {t : Thread} {address : UInt64}

/-- Asking the recent hits first finds what the map would have given. -/
theorem registeredAt_found (wf : t.registered.WellFormed) (cached : t.Cached) :
    (t.registeredAt address).1 = t.registered.covering? address := by
  unfold registeredAt
  split
  · next hit hits found =>
    obtain ⟨-, member, holds⟩ := RecentHits.lookup_some found
    exact (wf.disjoint.covering?_eq_some (cached hit member) holds).symm
  · split
    · next covered => exact covered.symm
    · next uncovered => exact uncovered.symm

theorem registeredAt_thread (cached : t.Cached) (address : UInt64) :
    ∃ hits : RecentHits Registration, (t.registeredAt address).2.2 = { t with hits := hits } ∧
      ∀ e ∈ hits.entries, e ∈ t.registered.entries := by
  unfold registeredAt
  split
  · next hit hits found =>
    obtain ⟨perm, -, -⟩ := RecentHits.lookup_some found
    exact ⟨hits, rfl, fun e member => cached e (perm.mem_iff.1 member)⟩
  · split
    · next found covered =>
      refine ⟨t.hits.insert found, rfl, fun e member => ?_⟩
      rcases RecentHits.mem_insert member with rfl | old
      · exact (IntervalMap.covering?_mem covered).1
      · exact cached e old
    · exact ⟨t.hits, rfl, cached⟩

end Thread

/-- What an access is classified as, whatever was found recently. -/
def classification (registered : IntervalMap Registration) (globals : IntervalMap GlobalRef)
    (vector : VectorRef) (blocks : List StackBlock) (access : Access) : Invariant :=
  match ownFrame? vector access 0 blocks with
  | some own => own
  | none =>
    ((Thread.callerFrame? (registered.covering? access.span.start) access).or
      (global? globals access)).getD .unknown

section Classify

variable {t : Thread} {registered : IntervalMap Registration} {globals : IntervalMap GlobalRef}
  {vector : VectorRef} {blocks : List StackBlock} {access : Access}

theorem classify_invariant (wf : t.registered.WellFormed) (cached : t.Cached) :
    (t.classify globals vector blocks access).invariant =
      classification t.registered globals vector blocks access := by
  unfold Thread.classify classification
  cases ownFrame? vector access 0 blocks with
  | some own => rfl
  | none =>
    dsimp only
    rw [Thread.registeredAt_found wf cached]

theorem classify_thread (cached : t.Cached) (globals : IntervalMap GlobalRef) (vector : VectorRef)
    (blocks : List StackBlock) (access : Access) :
    ∃ hits : RecentHits Registration,
      (t.classify globals vector blocks access).thread = { t with hits := hits } ∧
      ∀ e ∈ hits.entries, e ∈ t.registered.entries := by
  unfold Thread.classify
  cases ownFrame? vector access 0 blocks with
  | some own => exact ⟨t.hits, rfl, cached⟩
  | none => exact Thread.registeredAt_thread cached access.span.start

theorem classify_stack (t : Thread) (globals : IntervalMap GlobalRef) (vector : VectorRef)
    (blocks : List StackBlock) (access : Access) :
    (t.classify globals vector blocks access).thread.stack = t.stack := by
  unfold Thread.classify
  cases ownFrame? vector access 0 blocks with
  | some own => rfl
  | none =>
    dsimp only
    unfold Thread.registeredAt
    split
    · rfl
    · split <;> rfl

def StackBlock.Holds (access : Access) (block : StackBlock) : Prop :=
  (block.span access.sp access.fp).contains access.span = true

theorem ownFrame?_eq_none_iff {index : Nat} :
    ownFrame? vector access index blocks = none ↔ ∀ b ∈ blocks, ¬b.Holds access := by
  induction blocks generalizing index with
  | nil => simp [ownFrame?]
  | cons block rest ih =>
    unfold ownFrame?
    by_cases holds : (block.span access.sp access.fp).contains access.span = true
    · simp [holds, StackBlock.Holds]
    · simp [holds, StackBlock.Holds, ih]

theorem ownFrame?_append {index : Nat} {before after : List StackBlock} {block : StackBlock}
    (none : ∀ b ∈ before, ¬b.Holds access) (holds : block.Holds access) :
    ownFrame? vector access index (before ++ block :: after) =
      some (.ownFrame (block.span access.sp access.fp) ⟨vector, index + before.length⟩) := by
  induction before generalizing index with
  | nil =>
    unfold StackBlock.Holds at holds
    simp [ownFrame?, holds]
  | cons first rest ih =>
    have missed : ¬(first.span access.sp access.fp).contains access.span = true :=
      none first (.head rest)
    have later := @ih (index + 1) fun b member => none b (.tail first member)
    rw [List.cons_append, ownFrame?]
    simp only [if_neg missed]
    rw [later, List.length_cons]
    have shifted : index + 1 + rest.length = index + (rest.length + 1) := by omega
    rw [shifted]

theorem ownFrame?_eq_some {index : Nat} {own : Invariant}
    (found : ownFrame? vector access index blocks = some own) :
    ∃ before block after, blocks = before ++ block :: after ∧
      (∀ b ∈ before, ¬b.Holds access) ∧ block.Holds access ∧
      own = .ownFrame (block.span access.sp access.fp) ⟨vector, index + before.length⟩ := by
  induction blocks generalizing index with
  | nil => contradiction
  | cons block rest ih =>
    unfold ownFrame? at found
    dsimp only at found
    split at found
    · next holds =>
      cases found
      exact ⟨[], block, rest, rfl, by simp, holds, rfl⟩
    · next missed =>
      obtain ⟨before, first, after, split, none, holds, same⟩ := ih found
      refine ⟨block :: before, first, after, congrArg _ split, ?_, holds, ?_⟩
      · intro b member
        rcases List.mem_cons.1 member with rfl | later
        · exact missed
        · exact none b later
      · have shifted : index + 1 + before.length = index + (before.length + 1) := by omega
        rw [same, shifted, List.length_cons]

theorem callerFrame?_some {inv : Invariant}
    (found : Thread.callerFrame? (registered.covering? access.span.start) access = some inv) :
    ∃ e ∈ registered.entries, e.interval.contains access.span = true ∧
      inv = .callerFrame e.id e.interval.span e.value.block e.value.depth := by
  obtain ⟨e, covered, held⟩ := Option.bind_eq_some_iff.1 found
  split at held
  · next holds =>
    cases held
    exact ⟨e, (IntervalMap.covering?_mem covered).1, holds, rfl⟩
  · contradiction

theorem global?_some {inv : Invariant} (found : global? globals access = some inv) :
    ∃ e ∈ globals.entries, e.interval.contains access.span = true ∧
      inv = .global e.id e.interval.span e.value := by
  obtain ⟨e, covered, held⟩ := Option.bind_eq_some_iff.1 found
  split at held
  · next holds =>
    cases held
    exact ⟨e, (IntervalMap.covering?_mem covered).1, holds, rfl⟩
  · contradiction

theorem callerFrame?_of_mem (wf : registered.WellFormed) (nonempty : access.span.size ≠ 0)
    {e : Entry Registration} (member : e ∈ registered.entries)
    (holds : e.interval.contains access.span = true) :
    Thread.callerFrame? (registered.covering? access.span.start) access =
      some (.callerFrame e.id e.interval.span e.value.block e.value.depth) := by
  rw [wf.disjoint.covering?_eq_some member (Interval.start_mem_of_contains holds nonempty)]
  exact if_pos holds

theorem global?_of_mem (wf : globals.WellFormed) (nonempty : access.span.size ≠ 0)
    {e : Entry GlobalRef} (member : e ∈ globals.entries)
    (holds : e.interval.contains access.span = true) :
    global? globals access = some (.global e.id e.interval.span e.value) := by
  unfold global?
  rw [wf.disjoint.covering?_eq_some member (Interval.start_mem_of_contains holds nonempty)]
  exact if_pos holds

/-- Where a classification can come from. -/
theorem classification_cases (registered : IntervalMap Registration)
    (globals : IntervalMap GlobalRef) (vector : VectorRef) (blocks : List StackBlock)
    (access : Access) :
    (∃ (block : StackBlock) (index : Nat), block.Holds access ∧
      classification registered globals vector blocks access =
        .ownFrame (block.span access.sp access.fp) ⟨vector, index⟩) ∨
    (∃ e ∈ registered.entries, e.interval.contains access.span = true ∧
      classification registered globals vector blocks access =
        .callerFrame e.id e.interval.span e.value.block e.value.depth) ∨
    (∃ e ∈ globals.entries, e.interval.contains access.span = true ∧
      classification registered globals vector blocks access =
        .global e.id e.interval.span e.value) ∨
    classification registered globals vector blocks access = .unknown := by
  unfold classification
  cases own : ownFrame? vector access 0 blocks with
  | some inv =>
    obtain ⟨before, block, after, -, -, holds, rfl⟩ := ownFrame?_eq_some own
    exact .inl ⟨block, _, holds, rfl⟩
  | none =>
    cases caller : Thread.callerFrame? (registered.covering? access.span.start) access with
    | some inv =>
      obtain ⟨e, member, holds, rfl⟩ := callerFrame?_some caller
      exact .inr (.inl ⟨e, member, holds, rfl⟩)
    | none =>
      cases shared : global? globals access with
      | some inv =>
        obtain ⟨e, member, holds, rfl⟩ := global?_some shared
        exact .inr (.inr (.inl ⟨e, member, holds, rfl⟩))
      | none => exact .inr (.inr (.inr rfl))

theorem contains_of_classification {span : Span}
    (confined : (classification registered globals vector blocks access).span? = some span) :
    span.contains access.span = true := by
  rcases classification_cases registered globals vector blocks access with
    ⟨block, index, holds, same⟩ | ⟨e, -, holds, same⟩ | ⟨e, -, holds, same⟩ | same
  all_goals
    rw [same] at confined
    cases confined
  all_goals exact holds

theorem classification_live {depth : Nat}
    (below : ∀ e ∈ registered.entries, e.value.depth < depth) :
    (classification registered globals vector blocks access).Live registered globals depth := by
  rcases classification_cases registered globals vector blocks access with
    ⟨block, index, -, same⟩ | ⟨e, member, -, same⟩ | ⟨e, member, -, same⟩ | same
  · rw [same]
    trivial
  · rw [same]
    exact ⟨below e member, e.interval, member, rfl⟩
  · rw [same]
    exact ⟨e.interval, member, rfl⟩
  · rw [same]
    trivial

theorem classification_own {before after : List StackBlock} {block : StackBlock}
    (none : ∀ b ∈ before, ¬b.Holds access) (holds : block.Holds access) :
    classification registered globals vector (before ++ block :: after) access =
      .ownFrame (block.span access.sp access.fp) ⟨vector, before.length⟩ := by
  unfold classification
  rw [ownFrame?_append none holds, Nat.zero_add]

theorem classification_caller (wf : registered.WellFormed) (nonempty : access.span.size ≠ 0)
    (none : ∀ b ∈ blocks, ¬b.Holds access) {e : Entry Registration}
    (member : e ∈ registered.entries) (holds : e.interval.contains access.span = true) :
    classification registered globals vector blocks access =
      .callerFrame e.id e.interval.span e.value.block e.value.depth := by
  unfold classification
  rw [ownFrame?_eq_none_iff.2 none, callerFrame?_of_mem wf nonempty member holds]
  rfl

theorem classification_global (wf : globals.WellFormed) (nonempty : access.span.size ≠ 0)
    (none : ∀ b ∈ blocks, ¬b.Holds access)
    (outside : ∀ e ∈ registered.entries, ¬e.interval.contains access.span = true)
    {e : Entry GlobalRef} (member : e ∈ globals.entries)
    (holds : e.interval.contains access.span = true) :
    classification registered globals vector blocks access =
      .global e.id e.interval.span e.value := by
  have uncovered :
      Thread.callerFrame? (registered.covering? access.span.start) access = Option.none := by
    cases found : Thread.callerFrame? (registered.covering? access.span.start) access with
    | none => rfl
    | some inv =>
      obtain ⟨other, otherMember, otherHolds, -⟩ := callerFrame?_some found
      exact absurd otherHolds (outside other otherMember)
  unfold classification
  rw [ownFrame?_eq_none_iff.2 none, uncovered, global?_of_mem wf nonempty member holds]
  rfl

end Classify

end Overrun
