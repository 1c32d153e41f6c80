import Overrun.Proofs.Checker.Upkeep
import Overrun.Proofs.Thread.LaidOut

/-! What is registered and what is learned of it is what the catalog says: entries are blocks of the
catalog, as large as described and where the pointers at the time of the call put them, and an invariant
is always put into words with the size of its block. -/

namespace Overrun

/-- Whether a block that a site has learned of its own frame is one of its vector, and of that size. -/
def Site.Founded (catalog : Catalog) (site : Site) : Prop :=
  ∀ span ref, site.invariant = .ownFrame span ref →
    ref.vector = site.vector ∧ ∃ block, catalog.block ref = .ok block ∧ span.size = block.size

/-- Whether an invariant is put into words, with all that is said of its block as the catalog has it. -/
def Invariant.Rendered (catalog : Catalog) (here : Nat) (inv : Invariant) : Prop :=
  match inv with
  | .unset => inv.text catalog here = .ok "unset"
  | .unknown => inv.text catalog here = .ok "unknown"
  | .ownFrame _ ref => ∃ block, catalog.block ref = .ok block ∧
    let noun := noun block.isArray
    inv.text catalog here =
      .ok s!"stack {noun} \"{block.name}\" of size {block.size} in this frame"
  | .callerFrame _ _ ref depth => ∃ block, catalog.block ref = .ok block ∧
    let noun := noun block.isArray
    let back := here - depth
    inv.text catalog here =
      .ok s!"stack {noun} \"{block.name}\" of size {block.size} in frame {back} back from here"
  | .global _ _ ref => ∃ block, catalog.global ref = .ok block ∧
    let noun := noun block.isArray
    inv.text catalog here =
      .ok (s!"global {noun} \"{block.name}\" of size {block.size}"
        ++ s!" in object with soname \"{block.object}\"")

namespace Invariant

variable {catalog : Catalog} {span : Span} {ref : BlockRef} {block : StackBlock}

theorem rendered_ownFrame (known : catalog.block ref = .ok block) (sizes : span.size = block.size)
    (here : Nat) : (ownFrame span ref).Rendered catalog here := by
  refine ⟨block, known, bind_eq_ok.2 ⟨block, known, ?_⟩⟩
  rw [← sizes]
  rfl

theorem rendered_callerFrame (known : catalog.block ref = .ok block)
    (sizes : span.size = block.size) (node : NodeId) (depth here : Nat) :
    (callerFrame node span ref depth).Rendered catalog here := by
  refine ⟨block, known, bind_eq_ok.2 ⟨block, known, ?_⟩⟩
  rw [← sizes]
  rfl

theorem rendered_global {g : GlobalRef} {block : GlobalBlock} (known : catalog.global g = .ok block)
    (sizes : span.size = block.size) (node : NodeId) (here : Nat) :
    (global node span g).Rendered catalog here := by
  refine ⟨block, known, bind_eq_ok.2 ⟨block, known, ?_⟩⟩
  rw [← sizes]
  rfl

end Invariant

theorem founded_classification {catalog : Catalog} {vector : VectorRef} {blocks : List StackBlock}
    (registered : IntervalMap Registration) (globals : IntervalMap GlobalRef)
    (instruction : UInt64) (access : Access) (known : catalog.vector vector = .ok blocks) :
    Site.Founded catalog
      ⟨instruction, vector, classification registered globals vector blocks access⟩ := by
  intro span ref found
  dsimp only at found ⊢
  unfold classification at found
  cases own : ownFrame? vector access 0 blocks with
  | some inv =>
    rw [own] at found
    obtain ⟨before, block, after, rfl, -, -, rfl⟩ := ownFrame?_eq_some own
    cases found
    exact ⟨rfl, block, Catalog.block_eq_ok_iff.2 ⟨_, known, by simp⟩, rfl⟩
  | none =>
    rw [own] at found
    cases caller : Thread.callerFrame? (registered.covering? access.span.start) access with
    | some inv =>
      obtain ⟨e, -, -, rfl⟩ := callerFrame?_some caller
      rw [caller] at found
      contradiction
    | none =>
      cases shared : global? globals access with
      | some inv =>
        obtain ⟨e, -, -, rfl⟩ := global?_some shared
        rw [caller, shared] at found
        contradiction
      | none =>
        rw [caller, shared] at found
        contradiction

theorem Thread.upheld_founded :
    Upheld fun catalog t => t.stack.EachSite (Site.Founded catalog) := by
  apply upheld_eachSite
  · intro catalog after site founded more span ref learned
    obtain ⟨same, block, known, sizes⟩ := founded span ref learned
    exact ⟨same, block, more.block known, sizes⟩
  · intro catalog site founded span ref learned
    contradiction
  · intro catalog vector blocks registered globals instruction access known
    exact founded_classification registered globals instruction access known

theorem Thread.upheld_placed : Upheld fun catalog t => ∀ depth, t.Placed catalog depth where
  initial _ _ _ := .inl rfl
  grow placed more depth := (placed depth).grow more
  hits _ placed := placed
  start sp wf placed depth := placed_start wf (placed depth) sp
  call canonical wf known done placed depth :=
    placed_call wf (fun _ => canonical.size_pos known) known done (placed depth)
  unwind wf done placed depth := placed_unwind wf done (placed depth)
  learn _ _ _ _ _ placed depth := placed_withTopSites (placed depth) _
  forget doomed placed depth := placed_forget (placed depth) doomed

namespace Checker

structure Described (c : Checker) : Prop where
  /-- What is registered is a block of a vector that is known, where the pointers put it that the
  activation recorded which registered it. -/
  placed : ∀ tid t, c.thread? tid = some t → ∀ e ∈ t.registered.entries,
    e.value.depth < t.depth ∧ ∃ caller block, t.stack.get? e.value.depth = some caller ∧
      c.catalog.block e.value.block = .ok block ∧ e.interval.size = block.size ∧
      e.interval.first = block.address caller.spAtCall caller.fpAtCall
  /-- An activation has registered all the blocks of one vector that fit in the address space, or
  nothing. -/
  whole : ∀ tid t, c.thread? tid = some t → ∀ depth, t.registered.ownedBy depth ≠ [] →
    ∃ caller vector blocks, t.stack.get? depth = some caller ∧
      c.catalog.vector vector = .ok blocks ∧
      ((t.registered.ownedBy depth).map Entry.laid).Perm
        (laidOut vector caller.spAtCall caller.fpAtCall depth 0 blocks)
  globals : ∀ e ∈ c.globals.entries, ∃ block, c.catalog.global e.value = .ok block ∧
    e.interval.span = ⟨block.address, block.size⟩
  own : ∀ tid t, c.thread? tid = some t → ∀ depth a, t.stack.get? depth = some a →
    ∀ site ∈ a.sites.sites, ∀ span ref, site.invariant = .ownFrame span ref →
      ref.vector = site.vector ∧ ∃ block, c.catalog.block ref = .ok block ∧ span.size = block.size
  rendered : ∀ tid t, c.thread? tid = some t → ∀ depth a, t.stack.get? depth = some a →
    ∀ site ∈ a.sites.sites, ∀ here, site.invariant.Rendered c.catalog here

variable {c : Checker}

theorem placed_entry {catalog : Catalog} {t : Thread} {e : Entry Registration}
    (placed : t.Placed catalog e.value.depth) (member : e ∈ t.registered.entries) :
    ∃ caller block, t.stack.get? e.value.depth = some caller ∧
      catalog.block e.value.block = .ok block ∧ e.interval.size = block.size ∧
      e.interval.first = block.address caller.spAtCall caller.fpAtCall := by
  have owned : e ∈ t.registered.ownedBy e.value.depth := IntervalMap.mem_ownedBy.2 ⟨member, rfl⟩
  rcases placed with idle | ⟨caller, vector, blocks, found, known, perm⟩
  · rw [idle] at owned
    contradiction
  · have laid := perm.mem_iff.1 (List.mem_map_of_mem owned)
    obtain ⟨position, block, there, -, same⟩ := mem_laidOut.1 laid
    have lies : e.interval.span = block.span caller.spAtCall caller.fpAtCall :=
      congrArg Prod.fst same
    have named : e.value.block = ⟨vector, position⟩ :=
      congrArg (fun laid => laid.2.block) same
    rw [named]
    exact ⟨caller, block, found, Catalog.block_eq_ok_iff.2 ⟨blocks, known, there⟩,
      congrArg Span.size lies, congrArg Span.start lies⟩

/-- What is registered in a reachable state is what the catalog says, and so is what was learned. -/
theorem Reachable.described (reachable : c.Reachable) : c.Described := by
  have wf := reachable.wellFormed
  have placed := reachable.eachThread Thread.upheld_placed
  have founded := reachable.eachThread Thread.upheld_founded
  refine ⟨?_, ?_, reachable.cataloged.globals, founded, ?_⟩
  · intro tid t found e member
    exact ⟨(wf.threads tid t found).depth_lt member, placed_entry (placed tid t found _) member⟩
  · intro tid t found depth some
    exact (placed tid t found depth).resolve_left some
  · intro tid t there depth a found site member here
    have live := ((wf.threads tid t there).live depth a found).2 site member
    cases learned : site.invariant with
    | unset => rfl
    | unknown => rfl
    | ownFrame span ref =>
      have own := founded tid t there depth a found site member
      obtain ⟨-, block, known, sizes⟩ := own span ref learned
      exact Invariant.rendered_ownFrame known sizes here
    | callerFrame node span ref owner =>
      rw [learned] at live
      obtain ⟨-, iv, registered, rfl⟩ := live
      obtain ⟨-, block, -, known, sizes, -⟩ := placed_entry (placed tid t there _) registered
      exact Invariant.rendered_callerFrame known sizes node owner here
    | global node span ref =>
      rw [learned] at live
      obtain ⟨iv, registered, rfl⟩ := live
      obtain ⟨block, known, lies⟩ := reachable.cataloged.globals _ registered
      exact Invariant.rendered_global known (congrArg Span.size lies) node here

def sampleEntry : Entry Registration :=
  ⟨⟨0x7fe0, 0x7fef, by decide, by decide⟩, ⟨0⟩, ⟨⟨⟨0⟩, 0⟩, 1⟩⟩

theorem described_sample :
    (∃ caller block, sampleThread.stack.get? 1 = some caller ∧
      sample.catalog.block ⟨⟨0⟩, 0⟩ = .ok block ∧ sampleEntry.interval.size = block.size ∧
      sampleEntry.interval.first = block.address caller.spAtCall caller.fpAtCall) ∧
    Invariant.Rendered sample.catalog 2 (.callerFrame ⟨0⟩ ⟨0x7fe0, 16⟩ ⟨⟨0⟩, 0⟩ 1) := by
  have described := reachable_sample.described
  have registered : sampleEntry ∈ sampleThread.registered.entries := by decide +kernel
  have callee : sampleThread.stack.get? 2 = some sampleThread.stack.top := by decide +kernel
  have learned : ⟨0x2000, ⟨1⟩, .callerFrame ⟨0⟩ ⟨0x7fe0, 16⟩ ⟨⟨0⟩, 0⟩ 1⟩ ∈
      sampleThread.stack.top.sites.sites := by decide +kernel
  exact ⟨(described.placed _ _ thread?_sample _ registered).2,
    described.rendered _ _ thread?_sample _ _ callee _ learned 2⟩

end Checker

end Overrun
