import Overrun.Consistency.Audit
import Overrun.Proofs.Address.Disjoint
import Overrun.Proofs.Faults
import Overrun.Thread.Call

/-! Depths are positions from the bottom, so entering and leaving an activation changes the top and
nothing below it. What a call registers is what its caller lists, and leaving the callee releases just
that. -/

namespace Overrun

namespace ShadowStack

theorem get?_eq (s : ShadowStack) (depth : Nat) :
    s.get? depth = if depth = s.depth then some s.top else s.below.reverse[depth]? := by
  unfold get? frames ShadowStack.depth
  rw [List.reverse_cons, List.getElem?_append, List.length_reverse]
  by_cases same : depth = s.below.length
  · simp [same]
  · rw [if_neg same]
    split
    · rfl
    · next above =>
      have beyond : [s.top].length ≤ depth - s.below.length := by
        rw [List.length_singleton]
        omega
      rw [List.getElem?_eq_none beyond, List.getElem?_eq_none]
      rw [List.length_reverse]
      omega

theorem get?_depth (s : ShadowStack) : s.get? s.depth = some s.top := by
  rw [get?_eq, if_pos rfl]

theorem le_depth_of_get? {s : ShadowStack} {depth : Nat} {a : Activation}
    (found : s.get? depth = some a) : depth ≤ s.depth := by
  obtain ⟨inside, -⟩ := List.getElem?_eq_some_iff.1 found
  unfold frames at inside
  rw [List.length_reverse, List.length_cons] at inside
  exact Nat.le_of_lt_succ inside

theorem get?_push (s : ShadowStack) (a : Activation) (depth : Nat) :
    (s.push a).get? depth = if depth = s.depth + 1 then some a else s.get? depth := by
  rw [get?_eq]
  unfold push ShadowStack.depth
  rw [List.length_cons]
  split
  · rfl
  · unfold get? frames
    rfl

theorem get?_withTop (s : ShadowStack) (a : Activation) (depth : Nat) :
    ({ s with top := a } : ShadowStack).get? depth =
      if depth = s.depth then some a else s.get? depth := by
  rw [get?_eq, get?_eq s]
  unfold ShadowStack.depth
  split <;> rfl

theorem frames_map (f : Activation → Activation) (s : ShadowStack) :
    (s.map f).frames = s.frames.map f := by
  unfold frames map
  rw [List.map_reverse, List.map_cons]

theorem get?_map (f : Activation → Activation) (s : ShadowStack) (depth : Nat) :
    (s.map f).get? depth = (s.get? depth).map f := by
  unfold get?
  rw [frames_map, List.getElem?_map]

/-- Whether the bottom is one that no stack pointer rises above. -/
def Grounded (s : ShadowStack) : Prop :=
  ∃ a, s.get? 0 = some a ∧ a.creationSp = topAddress

theorem grounded_push {s : ShadowStack} {a : Activation} : (s.push a).Grounded ↔ s.Grounded := by
  unfold Grounded
  rw [get?_push, if_neg (Nat.zero_ne_add_one _)]

theorem Grounded.withTop {s : ShadowStack} (grounded : s.Grounded) {a : Activation}
    (same : a.creationSp = s.top.creationSp) : ({ s with top := a } : ShadowStack).Grounded := by
  obtain ⟨bottom, found, highest⟩ := grounded
  unfold Grounded
  rw [get?_withTop]
  split
  · next outermost =>
    rw [outermost, get?_depth] at found
    cases found
    exact ⟨a, rfl, same.trans highest⟩
  · exact ⟨bottom, found, highest⟩

def listed (activations : List Activation) : List (UInt64 × Nat) :=
  activations.reverse.zipIdx.flatMap fun (a, depth) => a.registered.map (·, depth)

theorem listed_cons (a : Activation) (below : List Activation) :
    listed (a :: below) = listed below ++ a.registered.map (·, below.length) := by
  unfold listed
  rw [List.reverse_cons, List.zipIdx_append, List.flatMap_append, List.length_reverse]
  simp

theorem depth_lt_of_mem_listed {activations : List Activation} {listing : UInt64 × Nat}
    (member : listing ∈ listed activations) : listing.2 < activations.length := by
  induction activations with
  | nil => contradiction
  | cons a below ih =>
    rw [listed_cons, List.mem_append] at member
    rw [List.length_cons]
    rcases member with early | late
    · exact Nat.lt_succ_of_lt (ih early)
    · obtain ⟨address, -, rfl⟩ := List.mem_map.1 late
      exact Nat.lt_succ_self _

end ShadowStack

theorem Thread.listings_eq (t : Thread) :
    t.listings = ShadowStack.listed (t.stack.top :: t.stack.below) :=
  rfl

def Entry.listing (e : Entry Registration) : UInt64 × Nat :=
  (e.interval.first, e.value.depth)

namespace IntervalMap

variable {m : IntervalMap Registration} {listings : List (UInt64 × Nat)}

/-- Whether the listings are those of the entries, each once. -/
def Matches (m : IntervalMap Registration) (listings : List (UInt64 × Nat)) : Prop :=
  listings.Perm (m.entries.map Entry.listing)

theorem Matches.mem_iff (balanced : m.Matches listings) {listing : UInt64 × Nat} :
    listing ∈ listings ↔ ∃ e ∈ m.entries, e.listing = listing := by
  rw [List.Perm.mem_iff balanced, List.mem_map]

theorem Matches.place (balanced : m.Matches listings) (e : Entry Registration) (nextId : NodeId) :
    IntervalMap.Matches ⟨place e m.entries, nextId⟩ (listings ++ [e.listing]) := by
  have added := (perm_place e m.entries).map Entry.listing
  have last := (List.perm_append_singleton e.listing listings).trans (balanced.cons e.listing)
  exact last.trans added.symm

theorem Matches.release {addresses : List UInt64} {depth : Nat}
    (balanced : m.Matches (addresses.map (·, depth) ++ listings))
    (elsewhere : ∀ listing ∈ listings, listing.2 ≠ depth) :
    IntervalMap.Matches { m with entries := m.entries.filter fun e => e.value.depth ≠ depth }
      listings := by
  have kept := List.Perm.filter (fun listing => listing.2 ≠ depth) balanced
  have gone : (addresses.map (·, depth)).filter (fun listing => listing.2 ≠ depth) = [] := by
    apply List.filter_eq_nil_iff.2
    intro listing member
    obtain ⟨address, -, rfl⟩ := List.mem_map.1 member
    simp
  have stay : listings.filter (fun listing => listing.2 ≠ depth) = listings :=
    List.filter_eq_self.2 fun listing member => decide_eq_true (elsewhere listing member)
  rw [List.filter_append, gone, stay, List.nil_append, List.filter_map] at kept
  exact kept

end IntervalMap

theorem registerBlocks_ok {tid : ThreadId} {hook : CallHook} {depth index : Nat}
    {m : IntervalMap Registration} {blocks : List StackBlock} {listings : List (UInt64 × Nat)}
    {r : Registered} (wf : m.WellFormed) (balanced : m.Matches listings)
    (done : registerBlocks tid hook depth index m blocks = .ok r) :
    r.map.WellFormed ∧ (∀ e ∈ m.entries, e ∈ r.map.entries) ∧
      r.map.Matches (listings ++ r.added.map (·, depth)) := by
  induction blocks generalizing index m listings r with
  | nil =>
    cases done
    rw [List.map_nil, List.append_nil]
    exact ⟨wf, fun _ member => member, balanced⟩
  | cons block rest ih =>
    unfold registerBlocks at done
    dsimp only at done
    split at done
    · obtain ⟨later, registered, same⟩ := bind_eq_ok.1 done
      cases same
      have step := ih wf balanced registered
      exact step
    · next interval fits =>
      split at done
      · contradiction
      · next id after inserted =>
        obtain ⟨later, registered, same⟩ := bind_eq_ok.1 done
        cases same
        have afterWf := wf.insert inserted
        obtain ⟨-, -, rfl⟩ := IntervalMap.insert_eq_ok inserted
        have starts := (Interval.ofSize?_eq_some fits).1
        have grown := balanced.place ⟨interval, m.nextId, ⟨⟨hook.vector, index⟩, depth⟩⟩
          ⟨m.nextId.index + 1⟩
        unfold Entry.listing at grown
        rw [starts] at grown
        obtain ⟨laterWf, kept, laterBalanced⟩ := ih afterWf grown registered
        refine ⟨laterWf, fun e member => kept e (IntervalMap.mem_place.2 (.inr member)), ?_⟩
        rw [List.append_assoc] at laterBalanced
        exact laterBalanced

/-- Releasing what an activation lists takes out the entries of its depth and nothing else. -/
theorem releaseBlocks_eq (tid : ThreadId) {depth : Nat} {m : IntervalMap Registration}
    {addresses : List UInt64} {others : List (UInt64 × Nat)} (wf : m.WellFormed)
    (balanced : m.Matches (addresses.map (·, depth) ++ others))
    (elsewhere : ∀ listing ∈ others, listing.2 ≠ depth) :
    releaseBlocks tid m addresses =
      .ok { m with entries := m.entries.filter fun e => e.value.depth ≠ depth } := by
  induction addresses generalizing m with
  | nil =>
    have all : m.entries.filter (fun e => e.value.depth ≠ depth) = m.entries := by
      apply List.filter_eq_self.2
      intro e member
      exact decide_eq_true (elsewhere e.listing (balanced.mem_iff.2 ⟨e, member, rfl⟩))
    unfold releaseBlocks
    rw [all]
  | cons address rest ih =>
    obtain ⟨e, member, listing⟩ := balanced.mem_iff.1 (.head _)
    have starts : e.interval.first = address := congrArg Prod.fst listing
    have owner : e.value.depth = depth := congrArg Prod.snd listing
    have holds : address ∈ e.interval := starts ▸ e.interval.first_mem
    -- One entry goes with one listing, so what is left is balanced by the other listings.
    have restBalanced : IntervalMap.Matches
        { m with entries := m.entries.filter fun e => address ∉ e.interval }
        (rest.map (·, depth) ++ others) := by
      have removed := (wf.perm_cons_filter member holds).map Entry.listing
      rw [List.map_cons, listing] at removed
      exact List.Perm.cons_inv (List.Perm.trans balanced removed)
    unfold releaseBlocks
    rw [wf.takeAt?_eq_some member holds]
    dsimp only
    rw [ih (wf.sublist List.filter_sublist) restBalanced]
    have same : (m.entries.filter fun e => address ∉ e.interval).filter
        (fun e => e.value.depth ≠ depth) = m.entries.filter fun e => e.value.depth ≠ depth := by
      rw [List.filter_filter]
      apply List.filter_congr
      intro x xMember
      by_cases there : address ∈ x.interval
      · have gone : x = e := wf.disjoint.eq_of_mem xMember member there holds
        simp [gone, owner]
      · simp [there]
    rw [same]

end Overrun
