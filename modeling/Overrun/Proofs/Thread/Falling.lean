import Overrun.Proofs.Thread.Classification

/-! What it means that an access falls in a block, in numbers that have no end and without regard to how the
block is found. Only where a block starts is reckoned modulo the address space; a block that runs past the
top still has all its bytes, and an access that does can lie in it. -/

namespace Overrun

/-- Whether all bytes of the access are among the `size` bytes from `start` on. -/
def Access.LiesIn (access : Access) (start size : Nat) : Prop :=
  start ≤ access.span.start.toNat ∧
    access.span.start.toNat + access.span.size.toNat ≤ start + size

instance (access : Access) (start size : Nat) : Decidable (access.LiesIn start size) :=
  inferInstanceAs (Decidable (_ ∧ _))

namespace StackBlock

/-- Where the block starts: so far from the pointer that it goes by, modulo the address space. -/
def origin (b : StackBlock) (sp fp : UInt64) : Nat :=
  (((if b.spRelative then sp else fp).toNat + b.base.toInt) % 0x10000000000000000).toNat

def Takes (access : Access) (b : StackBlock) : Prop :=
  access.LiesIn (b.origin access.sp access.fp) b.size.toNat

instance (access : Access) (b : StackBlock) : Decidable (b.Takes access) :=
  inferInstanceAs (Decidable (access.LiesIn _ _))

end StackBlock

def Entry.Takes {α : Type} (access : Access) (e : Entry α) : Prop :=
  access.LiesIn e.interval.first.toNat e.interval.size.toNat

instance {α : Type} (access : Access) (e : Entry α) : Decidable (e.Takes access) :=
  inferInstanceAs (Decidable (access.LiesIn _ _))

/-- Which block an access falls in: the first of its own frame that it lies in, if not that the registered
block that it lies in, if not that the global. -/
inductive FallsIn (registered : IntervalMap Registration) (globals : IntervalMap GlobalRef)
    (vector : VectorRef) (blocks : List StackBlock) (access : Access) : Invariant → Prop where
  | ownFrame {before after : List StackBlock} {block : StackBlock}
      (split : blocks = before ++ block :: after) (first : ∀ b ∈ before, ¬b.Takes access)
      (takes : block.Takes access) :
      FallsIn registered globals vector blocks access
        (.ownFrame ⟨.ofNat (block.origin access.sp access.fp), block.size⟩ ⟨vector, before.length⟩)
  | callerFrame (none : ∀ b ∈ blocks, ¬b.Takes access) {e : Entry Registration}
      (member : e ∈ registered.entries) (takes : e.Takes access) :
      FallsIn registered globals vector blocks access
        (.callerFrame e.id e.interval.span e.value.block e.value.depth)
  | global (none : ∀ b ∈ blocks, ¬b.Takes access)
      (outside : ∀ e ∈ registered.entries, ¬e.Takes access) {e : Entry GlobalRef}
      (member : e ∈ globals.entries) (takes : e.Takes access) :
      FallsIn registered globals vector blocks access (.global e.id e.interval.span e.value)
  | unknown (none : ∀ b ∈ blocks, ¬b.Takes access)
      (outside : ∀ e ∈ registered.entries, ¬e.Takes access)
      (nowhere : ∀ e ∈ globals.entries, ¬e.Takes access) :
      FallsIn registered globals vector blocks access .unknown

variable {registered : IntervalMap Registration} {globals : IntervalMap GlobalRef}
  {vector : VectorRef} {blocks : List StackBlock} {access : Access} {inv : Invariant}

theorem toNat_toUInt64 (base : Int64) :
    (base.toUInt64.toNat : Int) = base.toInt % 0x10000000000000000 := by
  have bounded := base.toUInt64.toNat_lt
  have signed : base.toInt = if 2 * base.toUInt64.toNat < 0x10000000000000000
      then (base.toUInt64.toNat : Int) else base.toUInt64.toNat - 0x10000000000000000 :=
    BitVec.toInt_eq_toNat_cond base.toBitVec
  split at signed <;> omega

theorem StackBlock.toNat_address (b : StackBlock) (sp fp : UInt64) :
    (b.address sp fp).toNat = b.origin sp fp := by
  have base := toNat_toUInt64 b.base
  unfold address origin
  rw [UInt64.toNat_add]
  omega

theorem StackBlock.span_eq (b : StackBlock) (sp fp : UInt64) :
    b.span sp fp = ⟨.ofNat (b.origin sp fp), b.size⟩ := by
  rw [span, ← b.toNat_address, UInt64.ofNat_toNat]

theorem StackBlock.takes_iff {b : StackBlock} : b.Takes access ↔ b.Holds access := by
  unfold Takes Holds
  rw [Span.contains_iff, ← toNat_address]
  exact Iff.rfl

theorem Entry.takes_iff {α : Type} {e : Entry α} :
    e.Takes access ↔ e.interval.contains access.span = true := by
  unfold Takes Interval.contains
  rw [Span.contains_iff]
  exact Iff.rfl

theorem fallsIn_classification (registeredWf : registered.WellFormed) (globalsWf : globals.WellFormed)
    (nonempty : access.span.size ≠ 0) :
    FallsIn registered globals vector blocks access
      (classification registered globals vector blocks access) := by
  unfold classification
  cases own : ownFrame? vector access 0 blocks with
  | some inv =>
    obtain ⟨before, block, after, split, first, holds, rfl⟩ := ownFrame?_eq_some own
    rw [Nat.zero_add, block.span_eq]
    exact .ownFrame split (fun b member => mt StackBlock.takes_iff.1 (first b member))
      (StackBlock.takes_iff.2 holds)
  | none =>
    have missed : ∀ b ∈ blocks, ¬b.Takes access := fun b member =>
      mt StackBlock.takes_iff.1 (ownFrame?_eq_none_iff.1 own b member)
    cases caller : Thread.callerFrame? (registered.covering? access.span.start) access with
    | some inv =>
      obtain ⟨e, member, holds, rfl⟩ := callerFrame?_some caller
      exact .callerFrame missed member (Entry.takes_iff.2 holds)
    | none =>
      have outside : ∀ e ∈ registered.entries, ¬e.Takes access := by
        intro e member takes
        rw [callerFrame?_of_mem registeredWf nonempty member (Entry.takes_iff.1 takes)] at caller
        contradiction
      cases shared : global? globals access with
      | some inv =>
        obtain ⟨e, member, holds, rfl⟩ := global?_some shared
        exact .global missed outside member (Entry.takes_iff.2 holds)
      | none =>
        refine .unknown missed outside fun e member takes => ?_
        rw [global?_of_mem globalsWf nonempty member (Entry.takes_iff.1 takes)] at shared
        contradiction

theorem FallsIn.eq_classification (falls : FallsIn registered globals vector blocks access inv)
    (registeredWf : registered.WellFormed) (globalsWf : globals.WellFormed)
    (nonempty : access.span.size ≠ 0) :
    inv = classification registered globals vector blocks access := by
  have missed : (∀ b ∈ blocks, ¬b.Takes access) → ∀ b ∈ blocks, ¬b.Holds access :=
    fun none b member => mt StackBlock.takes_iff.2 (none b member)
  have uncovered {α : Type} {m : IntervalMap α} (none : ∀ e ∈ m.entries, ¬e.Takes access) :
      ∀ e ∈ m.entries, ¬e.interval.contains access.span = true :=
    fun e member => mt Entry.takes_iff.2 (none e member)
  cases falls with
  | @ownFrame before after block split first takes =>
    rw [split, classification_own (fun b member => mt StackBlock.takes_iff.2 (first b member))
      (StackBlock.takes_iff.1 takes), block.span_eq]
  | callerFrame none member takes =>
    exact (classification_caller registeredWf nonempty (missed none) member
      (Entry.takes_iff.1 takes)).symm
  | global none outside member takes =>
    exact (classification_global globalsWf nonempty (missed none) (uncovered outside) member
      (Entry.takes_iff.1 takes)).symm
  | unknown none outside nowhere =>
    have caller :
        Thread.callerFrame? (registered.covering? access.span.start) access = Option.none := by
      refine Option.eq_none_iff_forall_ne_some.2 fun inv found => ?_
      obtain ⟨e, member, holds, -⟩ := callerFrame?_some found
      exact uncovered outside e member holds
    have shared : global? globals access = Option.none := by
      refine Option.eq_none_iff_forall_ne_some.2 fun inv found => ?_
      obtain ⟨e, member, holds, -⟩ := global?_some found
      exact uncovered nowhere e member holds
    unfold classification
    rw [ownFrame?_eq_none_iff.2 (missed none), caller, shared]
    rfl

theorem fallsIn_iff (registeredWf : registered.WellFormed) (globalsWf : globals.WellFormed)
    (nonempty : access.span.size ≠ 0) :
    FallsIn registered globals vector blocks access inv ↔
      inv = classification registered globals vector blocks access := by
  refine ⟨fun falls => falls.eq_classification registeredWf globalsWf nonempty, ?_⟩
  rintro rfl
  exact fallsIn_classification registeredWf globalsWf nonempty

/-- A registered block that the access starts in but does not lie in does not stand before a global. -/
theorem fallsIn_global_of_partly (registeredWf : registered.WellFormed)
    (nonempty : access.span.size ≠ 0) (none : ∀ b ∈ blocks, ¬b.Takes access)
    {partly : Entry Registration} (member : partly ∈ registered.entries)
    (starts : access.span.start ∈ partly.interval) (exceeds : ¬partly.Takes access)
    {e : Entry GlobalRef} (global : e ∈ globals.entries) (takes : e.Takes access) :
    FallsIn registered globals vector blocks access (.global e.id e.interval.span e.value) := by
  refine .global none (fun other registered within => ?_) global takes
  have starting := Interval.start_mem_of_contains (Entry.takes_iff.1 within) nonempty
  cases registeredWf.disjoint.eq_of_mem registered member starting starts
  exact exceeds within

end Overrun
