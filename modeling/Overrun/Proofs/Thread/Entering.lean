import Overrun.Proofs.Address.Bytes
import Overrun.Proofs.Address.Run
import Overrun.Proofs.Thread.Below

/-! The blocks of a function lie where the pointers that it passes on put them. A call registers them just
when each finds its place free: no two of those that fit share an address, and none shares one with a block
that is registered by then. They are tried one at a time, but it does not matter which of two comes first. -/

namespace Overrun

def Entry.laid (e : Entry Registration) : Span × Registration :=
  (e.interval.span, e.value)

/-- The blocks of a vector from the position `index` on, as they lie for a call: those that fit. -/
def laidOut (vector : VectorRef) (sp fp : UInt64) (depth index : Nat) (blocks : List StackBlock) :
    List (Span × Registration) :=
  ((blocks.zipIdx index).filter fun (block, _) => (block.span sp fp).Fits).map
    fun (block, position) => (block.span sp fp, ⟨⟨vector, position⟩, depth⟩)

section LaidOut

variable {vector : VectorRef} {sp fp : UInt64} {depth index : Nat} {block : StackBlock}
  {blocks rest : List StackBlock}

theorem laidOut_cons_of_fits (fits : (block.span sp fp).Fits) :
    laidOut vector sp fp depth index (block :: rest) =
      (block.span sp fp, ⟨⟨vector, index⟩, depth⟩) ::
        laidOut vector sp fp depth (index + 1) rest := by
  simp [laidOut, List.zipIdx_cons, fits]

theorem laidOut_cons_of_not_fits (wraps : ¬(block.span sp fp).Fits) :
    laidOut vector sp fp depth index (block :: rest) =
      laidOut vector sp fp depth (index + 1) rest := by
  simp [laidOut, List.zipIdx_cons, wraps]

theorem mem_laidOut {laid : Span × Registration} :
    laid ∈ laidOut vector sp fp depth 0 blocks ↔ ∃ position block,
      blocks[position]? = some block ∧ (block.span sp fp).Fits ∧
        laid = (block.span sp fp, ⟨⟨vector, position⟩, depth⟩) := by
  simp only [laidOut, List.mem_map, List.mem_filter, Prod.exists, decide_eq_true_eq,
    List.mem_zipIdx_iff_getElem?]
  constructor
  · rintro ⟨block, position, ⟨there, fits⟩, rfl⟩
    exact ⟨position, block, there, fits, rfl⟩
  · rintro ⟨position, block, there, fits, rfl⟩
    exact ⟨block, position, ⟨there, fits⟩, rfl⟩

end LaidOut

/-- Whether two of the blocks that are laid out share an address, or one of them and a registered one. -/
def Collide (m : IntervalMap Registration) (laid : List (Span × Registration)) : Prop :=
  (∃ first second, [first, second].Sublist laid ∧ first.1.Meets second.1) ∨
    ∃ block ∈ laid, ∃ e ∈ m.entries, e.interval.span.Meets block.1

theorem collide_iff {m : IntervalMap Registration} {laid : List (Span × Registration)} :
    Collide m laid ↔ ¬((laid.Pairwise fun first second => ¬first.1.Meets second.1) ∧
      ∀ block ∈ laid, ∀ e ∈ m.entries, ¬e.interval.span.Meets block.1) := by
  rw [List.pairwise_iff_forall_sublist]
  unfold Collide
  simp only [Classical.not_and_iff_not_or_not, Classical.not_forall, Classical.not_not, exists_prop]

instance (m : IntervalMap Registration) (laid : List (Span × Registration)) :
    Decidable (Collide m laid) :=
  decidable_of_iff _ collide_iff.symm

/-- Whether the blocks that are laid out were registered, in their order and with the next numbers, and
all that was registered before stayed. -/
structure Lays (m : IntervalMap Registration) (laid : List (Span × Registration))
    (after : IntervalMap Registration) : Prop where
  counted : after.nextId.index = m.nextId.index + laid.length
  entries : ∃ new : List (Entry Registration), new.map Entry.laid = laid ∧
    new.map (·.id.index) = List.range' m.nextId.index laid.length ∧
    after.entries.Perm (new ++ m.entries)

variable {m after : IntervalMap Registration} {laid : List (Span × Registration)}
  {first : Entry Registration}

theorem collide_cons (grown : after.entries.Perm (first :: m.entries)) :
    Collide m (first.laid :: laid) ↔
      (∃ e ∈ m.entries, e.interval.span.Meets first.interval.span) ∨ Collide after laid := by
  have held : ∀ span : Span, (∃ e ∈ after.entries, e.interval.span.Meets span) ↔
      first.interval.span.Meets span ∨ ∃ e ∈ m.entries, e.interval.span.Meets span := by
    intro span
    simp only [grown.mem_iff, List.mem_cons, or_and_right, exists_or, exists_eq_left]
  constructor
  · rintro (⟨a, b, sublist, meets⟩ | ⟨block, member, e, entry, meets⟩)
    · rcases List.sublist_cons_iff.1 sublist with later | ⟨others, same, later⟩
      · exact .inr (.inl ⟨a, b, later, meets⟩)
      · cases same
        exact .inr (.inr ⟨b, List.singleton_sublist.1 later, (held b.1).2 (.inl meets)⟩)
    · rcases List.mem_cons.1 member with rfl | later
      · exact .inl ⟨e, entry, meets⟩
      · exact .inr (.inr ⟨block, later, (held block.1).2 (.inr ⟨e, entry, meets⟩)⟩)
  · rintro (meets | ⟨a, b, later, meets⟩ | ⟨block, later, meets⟩)
    · exact .inr ⟨first.laid, .head _, meets⟩
    · exact .inl ⟨a, b, later.cons _, meets⟩
    · rcases (held block.1).1 meets with near | old
      · exact .inl ⟨first.laid, block, (List.singleton_sublist.2 later).cons_cons _, near⟩
      · exact .inr ⟨block, .tail _ later, old⟩

theorem not_collide_nil (m : IntervalMap Registration) : ¬Collide m [] := by
  rintro (⟨a, b, sublist, -⟩ | ⟨block, absurd, -⟩)
  · cases sublist
  · contradiction

theorem lays_nil (m : IntervalMap Registration) : Lays m [] m :=
  ⟨rfl, [], rfl, rfl, .refl _⟩

theorem Lays.cons {middle : IntervalMap Registration} (lays : Lays middle laid after)
    (number : first.id = m.nextId) (counted : middle.nextId.index = m.nextId.index + 1)
    (grown : middle.entries.Perm (first :: m.entries)) : Lays m (first.laid :: laid) after := by
  obtain ⟨new, same, numbers, entries⟩ := lays.entries
  refine ⟨?_, first :: new, ?_, ?_, ?_⟩
  · rw [lays.counted, counted, List.length_cons, Nat.add_assoc, Nat.add_comm 1]
  · rw [List.map_cons, same]
  · rw [List.map_cons, numbers, number, counted]
    rfl
  · exact entries.trans ((grown.append_left new).trans List.perm_middle)

theorem Lays.precedes (lays : Lays m laid after) : m.Precedes after := by
  obtain ⟨new, -, numbers, entries⟩ := lays.entries
  refine ⟨lays.counted ▸ Nat.le_add_right _ _, fun e member early => ?_⟩
  rcases List.mem_append.1 (entries.mem_iff.1 member) with fresh | old
  · have number := List.mem_map_of_mem (f := fun e : Entry Registration => e.id.index) fresh
    rw [numbers, List.mem_range'_1] at number
    exact absurd early (Nat.not_lt.2 number.1)
  · exact old

theorem Lays.exists_entry (lays : Lays m laid after) {block : Span × Registration}
    (member : block ∈ laid) : ∃ e ∈ after.entries, e.laid = block := by
  obtain ⟨new, same, -, entries⟩ := lays.entries
  rw [← same] at member
  obtain ⟨e, fresh, lies⟩ := List.mem_map.1 member
  exact ⟨e, entries.mem_iff.2 (List.mem_append_left _ fresh), lies⟩

section Registering

variable {tid : ThreadId} {hook : CallHook} {depth index : Nat} {block : StackBlock}
  {blocks rest : List StackBlock} {r : Registered} {fault : Fault} {interval : Interval}

def registeredEntry (m : IntervalMap Registration) (vector : VectorRef) (depth index : Nat)
    (interval : Interval) : Entry Registration :=
  ⟨interval, m.nextId, ⟨⟨vector, index⟩, depth⟩⟩

theorem insert_grows {id : NodeId}
    (inserted : m.insert interval ⟨⟨hook.vector, index⟩, depth⟩ = .ok (id, after)) :
    after.entries.Perm (registeredEntry m hook.vector depth index interval :: m.entries) ∧
      after.nextId.index = m.nextId.index + 1 ∧
      ∀ e ∈ m.entries, ¬e.interval.span.Meets interval.span := by
  obtain ⟨free, -, rfl⟩ := IntervalMap.insert_eq_ok inserted
  exact ⟨IntervalMap.perm_place _ _, rfl, fun e member meets =>
    free e member (Interval.overlaps_iff_meets.2 meets)⟩

theorem laidOut_cons_of_interval (m : IntervalMap Registration)
    (inside : Interval.ofSize? (block.address hook.spAtCall hook.fp) block.size = some interval) :
    laidOut hook.vector hook.spAtCall hook.fp depth index (block :: rest) =
      (registeredEntry m hook.vector depth index interval).laid ::
        laidOut hook.vector hook.spAtCall hook.fp depth (index + 1) rest := by
  obtain ⟨-, fits, lies⟩ := Interval.ofSize?_eq_some_iff.1 inside
  rw [laidOut_cons_of_fits fits, Entry.laid, registeredEntry, lies]
  rfl

theorem laidOut_cons_of_none (solid : 0 < block.size)
    (outside : Interval.ofSize? (block.address hook.spAtCall hook.fp) block.size = none) :
    laidOut hook.vector hook.spAtCall hook.fp depth index (block :: rest) =
      laidOut hook.vector hook.spAtCall hook.fp depth (index + 1) rest :=
  laidOut_cons_of_not_fits ((Interval.ofSize?_eq_none_iff solid).1 outside)

theorem registerBlocks_lays (solid : ∀ block ∈ blocks, 0 < block.size)
    (done : registerBlocks tid hook depth index m blocks = .ok r) :
    ¬Collide m (laidOut hook.vector hook.spAtCall hook.fp depth index blocks) ∧
      Lays m (laidOut hook.vector hook.spAtCall hook.fp depth index blocks) r.map ∧
      r.added =
        (laidOut hook.vector hook.spAtCall hook.fp depth index blocks).map (·.1.start) := by
  induction blocks generalizing index m r with
  | nil =>
    cases done
    exact ⟨not_collide_nil m, lays_nil m, rfl⟩
  | cons block rest ih =>
    have others : ∀ other ∈ rest, 0 < other.size := fun other member => solid other (.tail _ member)
    unfold registerBlocks at done
    dsimp only at done
    split at done
    · next outside =>
      obtain ⟨later, registered, same⟩ := bind_eq_ok.1 done
      cases same
      have kept := ih others registered
      rw [laidOut_cons_of_none (solid block (.head rest)) outside]
      exact kept
    · next interval inside =>
      split at done
      · contradiction
      · next id middle inserted =>
        obtain ⟨later, registered, same⟩ := bind_eq_ok.1 done
        cases same
        obtain ⟨grown, counted, free⟩ := insert_grows inserted
        obtain ⟨apart, lays, starts⟩ := ih others registered
        have lies := (Interval.ofSize?_eq_some_iff.1 inside).2.2
        rw [laidOut_cons_of_interval m inside]
        refine ⟨fun collide => ?_, lays.cons rfl counted grown, ?_⟩
        · rcases (collide_cons grown).1 collide with ⟨e, member, meets⟩ | collide
          · exact free e member meets
          · exact apart collide
        · rw [List.map_cons, ← starts]
          exact congrArg (· :: later.added) (congrArg Span.start lies).symm

/-- Whether a fault names one of the blocks and what is in its way, a registered block or another one. -/
def Names (tid : ThreadId) (hook : CallHook) (m : IntervalMap Registration)
    (laid : List (Span × Registration)) (blocks : List StackBlock) (fault : Fault) : Prop :=
  ∃ block ∈ blocks, ∃ overlap : Overlap, fault = .blockOverlaps tid block.name overlap ∧
    overlap.new.span = block.span hook.spAtCall hook.fp ∧
    overlap.existing.Overlaps overlap.new ∧
    ((∃ e ∈ m.entries, e.interval = overlap.existing) ∨
      ∃ other ∈ laid, other.1 = overlap.existing.span)

theorem registerBlocks_refuses (solid : ∀ block ∈ blocks, 0 < block.size)
    (failed : registerBlocks tid hook depth index m blocks = .error fault) :
    Collide m (laidOut hook.vector hook.spAtCall hook.fp depth index blocks) ∧
      Names tid hook m (laidOut hook.vector hook.spAtCall hook.fp depth index blocks) blocks
        fault := by
  induction blocks generalizing index m with
  | nil => contradiction
  | cons block rest ih =>
    have others : ∀ other ∈ rest, 0 < other.size := fun other member => solid other (.tail _ member)
    unfold registerBlocks at failed
    dsimp only at failed
    split at failed
    · next outside =>
      rcases bind_eq_error.1 failed with failed | ⟨later, -, absurd⟩
      · rw [laidOut_cons_of_none (solid block (.head rest)) outside]
        obtain ⟨collide, other, member, named⟩ := ih others failed
        exact ⟨collide, other, .tail _ member, named⟩
      · contradiction
    · next interval inside =>
      have lies := (Interval.ofSize?_eq_some_iff.1 inside).2.2
      rw [laidOut_cons_of_interval m inside]
      split at failed
      · next overlap refused =>
        cases failed
        obtain ⟨new, e, member, existing, overlaps⟩ := IntervalMap.insert_eq_error refused
        have meets := Interval.overlaps_iff_meets.1 overlaps
        refine ⟨.inr ⟨_, .head _, e, member, meets⟩, block, .head rest, overlap, rfl, ?_, ?_,
          .inl ⟨e, member, existing⟩⟩
        · rw [new]
          exact lies
        · rw [new, ← existing]
          exact overlaps
      · next id middle inserted =>
        obtain ⟨grown, -, -⟩ := insert_grows inserted
        rcases bind_eq_error.1 failed with failed | ⟨later, -, absurd⟩
        · obtain ⟨collide, other, member, overlap, same, new, overlaps, place⟩ := ih others failed
          refine ⟨(collide_cons grown).2 (.inr collide), other, .tail _ member, overlap, same, new,
            overlaps, ?_⟩
          -- What is in the way may be the block that was just registered.
          rcases place with ⟨e, entry, existing⟩ | ⟨laid, later, existing⟩
          · rcases List.mem_cons.1 (grown.mem_iff.1 entry) with rfl | old
            · exact .inr ⟨_, .head _, congrArg Interval.span existing⟩
            · exact .inl ⟨e, old, existing⟩
          · exact .inr ⟨laid, .tail _ later, existing⟩
        · contradiction

end Registering

namespace Thread

def callLayout (t : Thread) (hook : CallHook) (blocks : List StackBlock) :
    List (Span × Registration) :=
  laidOut hook.vector hook.spAtCall hook.fp t.depth 0 blocks

/-- Whether `u` is the thread once it has made a call for which `laid` was registered. -/
structure Enters (t : Thread) (hook : CallHook) (laid : List (Span × Registration))
    (u : Thread) : Prop where
  callee : u.stack.top =
    ⟨hook.spAfter, 0, 0, hook.returnAddress, [], ⟨#[none, none, none, none], 0⟩⟩
  caller : u.stack.below = ⟨t.stack.top.creationSp, hook.spAtCall, hook.fp,
    t.stack.top.returnAddress, laid.map (·.1.start), t.stack.top.sites⟩ :: t.stack.below
  registered : Lays t.registered laid u.registered
  hits : u.hits = if laid.isEmpty then t.hits else ⟨[], t.hits.capacity⟩

variable {t : Thread} {tid : ThreadId} {hook : CallHook} {blocks : List StackBlock}
  {called : Called} {fault : Fault}

theorem call_enters (solid : ∀ block ∈ blocks, 0 < block.size)
    (done : t.call tid hook blocks = .ok called) :
    ¬Collide t.registered (t.callLayout hook blocks) ∧
      t.Enters hook (t.callLayout hook blocks) called.thread ∧
      called.added = (t.callLayout hook blocks).length := by
  obtain ⟨r, registered, same⟩ := bind_eq_ok.1 done
  cases same
  obtain ⟨apart, lays, starts⟩ := registerBlocks_lays solid registered
  refine ⟨apart, ⟨rfl, ?_, lays, ?_⟩, ?_⟩
  · dsimp only [callLayout]
    rw [← starts]
    rfl
  · dsimp only [callLayout]
    rw [starts, List.isEmpty_map]
    rfl
  · dsimp only [callLayout]
    rw [starts, List.length_map]

theorem call_refuses (solid : ∀ block ∈ blocks, 0 < block.size)
    (failed : t.call tid hook blocks = .error fault) :
    Collide t.registered (t.callLayout hook blocks) ∧
      Names tid hook t.registered (t.callLayout hook blocks) blocks fault := by
  rcases bind_eq_error.1 failed with failed | ⟨r, -, absurd⟩
  · exact registerBlocks_refuses solid failed
  · contradiction

end Thread

end Overrun
