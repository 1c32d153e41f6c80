import Mathlib.Data.Finset.Card
import Overrun.Proofs.Learned.Building

/-! A table beside a map. What the table has for an instruction is told by the visits that the
instruction itself had: the vector of the first one, and what was written down last. Where the sites
are, how often they were moved and in which order they came has no say in it. -/

namespace Overrun.SiteTable

def vector? (visits : List Visit) (address : UInt64) : Option VectorRef :=
  (visits.find? (·.address = address)).map (·.vector)

def learned (visits : List Visit) (address : UInt64) : Invariant :=
  ((visits.filter (·.address = address)).flatMap (·.learns)).getLast?.getD .unset

/-- The map that a table stands for. -/
def remembered (visits : List Visit) (address : UInt64) : Option Site :=
  (vector? visits address).map fun vector => ⟨address, vector, learned visits address⟩

section Map

variable {visits : List Visit} {visited : Visit} {address : UInt64}

theorem vector?_snoc (visits : List Visit) (visited : Visit) (address : UInt64) :
    vector? (visits ++ [visited]) address =
      if address = visited.address then some ((vector? visits address).getD visited.vector)
      else vector? visits address := by
  unfold vector?
  rw [List.find?_append]
  cases visits.find? (·.address = address) with
  | some first => split <;> rfl
  | none =>
    by_cases same : address = visited.address
    · simp [same]
    · simp [same, Ne.symm same]

theorem learned_snoc (visits : List Visit) (visited : Visit) (address : UInt64) :
    learned (visits ++ [visited]) address =
      if address = visited.address then visited.learns.getLast?.getD (learned visits address)
      else learned visits address := by
  unfold learned
  rw [List.filter_append, List.flatMap_append, List.getLast?_append]
  by_cases same : address = visited.address
  · simp [same]
  · simp [same, Ne.symm same]

theorem remembered_snoc (visits : List Visit) (visited : Visit) (address : UInt64) :
    remembered (visits ++ [visited]) address =
      if address = visited.address then
        some ⟨address, (vector? visits address).getD visited.vector,
          visited.learns.getLast?.getD (learned visits address)⟩
      else remembered visits address := by
  unfold remembered
  rw [vector?_snoc, learned_snoc]
  split <;> rfl

theorem exists_of_vector? {vector : VectorRef} (first : vector? visits address = some vector) :
    ∃ visited ∈ visits, visited.address = address ∧ visited.vector = vector := by
  obtain ⟨visited, found, same⟩ := Option.map_eq_some_iff.1 first
  exact ⟨visited, List.mem_of_find?_eq_some found, by simpa using List.find?_some found, same⟩

theorem isSome_vector? :
    (vector? visits address).isSome ↔ address ∈ visits.map (·.address) := by
  unfold vector?
  rw [Option.isSome_map, List.find?_isSome]
  simp

theorem remembered_eq_none_iff :
    remembered visits address = none ↔ address ∉ visits.map (·.address) := by
  unfold remembered
  rw [Option.map_eq_none_iff, ← isSome_vector?, Option.not_isSome_iff_eq_none]

theorem learned_of_vector? (never : vector? visits address = none) :
    learned visits address = .unset := by
  have none : visits.filter (·.address = address) = [] := by
    rw [List.filter_eq_nil_iff]
    exact List.find?_eq_none.1 (Option.map_eq_none_iff.1 never)
  unfold learned
  rw [none]
  rfl

end Map

theorem write_write (t : SiteTable) (slot : Nat) (first second : Invariant) :
    (t.write slot first).write slot second = t.write slot second := by
  unfold write
  rw [SiteTable.mk.injEq]
  refine ⟨Array.ext_getElem? fun other => ?_, rfl⟩
  simp only [Array.getElem?_modify]
  split
  · cases t.slots[other]? with
    | none => rfl
    | some held => cases held <;> rfl
  · rfl

theorem foldl_write (t : SiteTable) (slot : Nat) (invariants : List Invariant) (last : Invariant) :
    (invariants ++ [last]).foldl (·.write slot ·) t = t.write slot last := by
  induction invariants generalizing t with
  | nil => rfl
  | cons first rest ih => exact (ih _).trans (write_write t slot first last)

theorem Located.foldl_write {l : Located} (held : l.table.slots[l.slot]?.join = some l.site)
    (invariants : List Invariant) :
    invariants.foldl (·.write l.slot ·) l.table =
      l.learn (invariants.getLast?.getD l.site.invariant) := by
  rcases List.eq_nil_or_concat' invariants with rfl | ⟨front, last, rfl⟩
  · exact (learn_same held).symm
  · rw [List.getLast?_concat, SiteTable.foldl_write, Option.getD_some, learn_eq]

section Visit

variable {t after : SiteTable} {visited : Visit} {visits : List Visit}

structure Revises (t : SiteTable) (visited : Visit) (after : SiteTable) : Prop where
  find?_eq : ∀ address, after.find? address =
    if address = visited.address then
      some ⟨visited.address, visited.vector, visited.learns.getLast?.getD
        (((t.find? visited.address).map (·.invariant)).getD .unset)⟩
    else t.find? address
  vector_eq : ∀ site, t.find? visited.address = some site → site.vector = visited.vector

theorem revises_visit (wf : t.WellFormed) (done : t.visit visited = .ok after) :
    t.Revises visited after := by
  unfold visit at done
  obtain ⟨l, found, done⟩ := bind_eq_ok.1 done
  cases done
  have located := findOrCreate_ok wf found
  constructor
  case find?_eq =>
    intro address
    rw [Located.foldl_write located.held, located.find?_learn wf, located.invariant_eq]
  case vector_eq =>
    intro site known
    rcases located.known_or_new with ⟨-, here⟩ | ⟨absent, -⟩
    · rw [here] at known
      cases known
      exact located.vector_eq
    · rw [absent] at known
      contradiction

def Remembers (t : SiteTable) (visits : List Visit) : Prop :=
  ∀ address, t.find? address = remembered visits address

theorem remembers_empty : (∅ : SiteTable).Remembers [] := by
  intro address
  change (∅ : SiteTable).find? address = none
  rw [Option.eq_none_iff_forall_ne_some]
  intro site found
  have member := ((find?_eq_some_iff wellFormed_empty).1 found).1
  rw [sites_empty] at member
  contradiction

theorem Remembers.visit (remembers : t.Remembers visits) (revises : t.Revises visited after) :
    after.Remembers (visits ++ [visited]) := by
  intro address
  rw [remembered_snoc, revises.find?_eq]
  split
  · next same =>
    subst same
    have before := remembers visited.address
    unfold remembered at before
    -- The first visit brings the vector; later ones can only bring it again.
    cases first : vector? visits visited.address with
    | none =>
      rw [first, Option.map_none] at before
      rw [before, learned_of_vector? first]
      rfl
    | some vector =>
      rw [first, Option.map_some] at before
      have coherent := revises.vector_eq _ before
      rw [before, ← coherent]
      rfl
  · exact remembers address

theorem Remembers.visitAll {rest : List Visit} (built : t.Built) (remembers : t.Remembers visits)
    (done : t.visitAll rest = .ok after) : after.Remembers (visits ++ rest) := by
  induction rest generalizing t visits with
  | nil =>
    cases done
    rw [List.append_nil]
    exact remembers
  | cons visited rest ih =>
    rw [visitAll_cons] at done
    obtain ⟨next, first, done⟩ := bind_eq_ok.1 done
    have later := ih (built.visit first)
      (remembers.visit (revises_visit built.filled.wellFormed first)) done
    rwa [List.append_assoc] at later

end Visit

section Coherent

/-- Whether no instruction comes with two vectors, and none is at zero. -/
structure Coherent (visits : List Visit) : Prop where
  ne_zero : ∀ visited ∈ visits, visited.address ≠ 0
  vector_eq : ∀ first ∈ visits, ∀ second ∈ visits,
    first.address = second.address → first.vector = second.vector

variable {t after : SiteTable} {visited : Visit} {visits rest : List Visit}

theorem Coherent.of_subset {fewer : List Visit} (coherent : Coherent visits)
    (subset : fewer ⊆ visits) : Coherent fewer where
  ne_zero visited member := coherent.ne_zero visited (subset member)
  vector_eq first member second other :=
    coherent.vector_eq first (subset member) second (subset other)

theorem Coherent.vector?_eq (coherent : Coherent visits) (member : visited ∈ visits) :
    vector? visits visited.address = some visited.vector := by
  have visitedOnce : (vector? visits visited.address).isSome :=
    isSome_vector?.2 (List.mem_map_of_mem member)
  obtain ⟨vector, first⟩ := Option.isSome_iff_exists.1 visitedOnce
  obtain ⟨earlier, other, same, rfl⟩ := exists_of_vector? first
  rw [first, coherent.vector_eq earlier other visited member same]

theorem coherent_snoc (coherent : Coherent visits) :
    Coherent (visits ++ [visited]) ↔ visited.address ≠ 0 ∧
      ∀ vector, vector? visits visited.address = some vector → vector = visited.vector := by
  constructor
  · intro together
    refine ⟨together.ne_zero visited (by simp), fun vector first => ?_⟩
    obtain ⟨earlier, member, same, rfl⟩ := exists_of_vector? first
    exact together.vector_eq earlier (by simp [member]) visited (by simp) same
  · rintro ⟨keyed, known⟩
    have again : ∀ earlier ∈ visits, earlier.address = visited.address →
        earlier.vector = visited.vector := by
      intro earlier member same
      exact known _ (same ▸ coherent.vector?_eq member)
    constructor
    case ne_zero =>
      intro other member
      rcases List.mem_append.1 member with earlier | last
      · exact coherent.ne_zero other earlier
      · exact List.mem_singleton.1 last ▸ keyed
    case vector_eq =>
      intro first member second other same
      rcases List.mem_append.1 member with earlier | last <;>
        rcases List.mem_append.1 other with earlierToo | lastToo
      · exact coherent.vector_eq first earlier second earlierToo same
      · cases List.mem_singleton.1 lastToo
        exact again first earlier same
      · cases List.mem_singleton.1 last
        exact (again second earlierToo same.symm).symm
      · rw [List.mem_singleton.1 last, List.mem_singleton.1 lastToo]

theorem Remembers.exists_visit (remembers : t.Remembers visits) (built : t.Built) :
    (∃ after, t.visit visited = .ok after) ↔ visited.address ≠ 0 ∧
      ∀ vector, vector? visits visited.address = some vector → vector = visited.vector := by
  constructor
  · rintro ⟨after, done⟩
    refine ⟨?_, fun vector first => ?_⟩
    · obtain ⟨l, found, -⟩ := bind_eq_ok.1 done
      exact findOrCreate_ne_zero found
    · have known := remembers visited.address
      unfold remembered at known
      rw [first, Option.map_some] at known
      exact (revises_visit built.filled.wellFormed done).vector_eq _ known
  · rintro ⟨keyed, coherent⟩
    unfold SiteTable.visit
    cases found : t.findOrCreate visited.address visited.vector with
    | ok l => exact ⟨_, rfl⟩
    | error fault =>
      rcases exists_misuses.1 ⟨fault, built.filled.findOrCreate_error.1 found⟩ with
        zero | ⟨site, member, same, other⟩
      · exact absurd zero keyed
      · have known := (find?_eq_some_iff built.filled.wellFormed).2 ⟨member, same⟩
        rw [remembers, remembered, Option.map_eq_some_iff] at known
        obtain ⟨vector, first, rfl⟩ := known
        exact absurd (coherent vector first) other

/-- Visits go through just if no two of them, or of those before them, contradict each other. -/
theorem Remembers.exists_visitAll (remembers : t.Remembers visits) (built : t.Built)
    (coherent : Coherent visits) :
    (∃ after, t.visitAll rest = .ok after) ↔ Coherent (visits ++ rest) := by
  induction rest generalizing t visits with
  | nil =>
    rw [List.append_nil]
    exact ⟨fun _ => coherent, fun _ => ⟨t, rfl⟩⟩
  | cons visited rest ih =>
    have first : (∃ next, t.visit visited = .ok next) ↔ Coherent (visits ++ [visited]) :=
      (remembers.exists_visit built).trans (coherent_snoc coherent).symm
    rw [visitAll_cons, List.append_cons]
    constructor
    · rintro ⟨after, done⟩
      obtain ⟨next, visitedFirst, done⟩ := bind_eq_ok.1 done
      have revises := revises_visit built.filled.wellFormed visitedFirst
      have later := ih (remembers.visit revises) (built.visit visitedFirst)
        (first.1 ⟨next, visitedFirst⟩)
      exact later.1 ⟨after, done⟩
    · intro together
      have untilNow := together.of_subset (List.subset_append_left _ rest)
      obtain ⟨next, visitedFirst⟩ := first.2 untilNow
      have revises := revises_visit built.filled.wellFormed visitedFirst
      have later := ih (remembers.visit revises) (built.visit visitedFirst) untilNow
      obtain ⟨after, done⟩ := later.2 together
      exact ⟨after, bind_eq_ok.2 ⟨next, visitedFirst, done⟩⟩

theorem coherent_nil : Coherent [] where
  ne_zero _ member := by contradiction
  vector_eq _ member := by contradiction

theorem exists_visitAll_empty (visits : List Visit) :
    (∃ t, (∅ : SiteTable).visitAll visits = .ok t) ↔ Coherent visits :=
  remembers_empty.exists_visitAll .empty coherent_nil

/-- Without contradictions, the first visit of an instruction may be any of its visits. -/
theorem Coherent.vector?_perm {others : List Visit} (coherent : Coherent visits)
    (perm : others.Perm visits) (address : UInt64) :
    vector? others address = vector? visits address := by
  cases first : vector? others address with
  | some vector =>
    obtain ⟨visited, member, rfl, rfl⟩ := exists_of_vector? first
    exact (coherent.vector?_eq (perm.mem_iff.1 member)).symm
  | none =>
    cases second : vector? visits address with
    | none => rfl
    | some vector =>
      obtain ⟨visited, member, rfl, rfl⟩ := exists_of_vector? second
      have again := (coherent.of_subset perm.subset).vector?_eq (perm.mem_iff.2 member)
      rw [first] at again
      contradiction

end Coherent

section Refining

variable {t u : SiteTable} {visits others : List Visit}

theorem WellFormed.nodup (wf : t.WellFormed) : t.sites.Nodup :=
  .of_map Site.address (nodup_addresses wf)

theorem find?_of_perm (wf : t.WellFormed) (other : u.WellFormed) (perm : u.sites.Perm t.sites)
    (address : UInt64) : u.find? address = t.find? address := by
  apply Option.ext
  intro site
  rw [find?_eq_some_iff wf, find?_eq_some_iff other, perm.mem_iff]

theorem Remembers.mem_iff (remembers : t.Remembers visits) (wf : t.WellFormed) (site : Site) :
    site ∈ t.sites ↔ remembered visits site.address = some site := by
  rw [← remembers, find?_eq_some_iff wf, and_iff_left rfl]

theorem Remembers.mem_addresses (remembers : t.Remembers visits) (wf : t.WellFormed)
    (address : UInt64) :
    address ∈ t.sites.map (·.address) ↔ address ∈ visits.map (·.address) := by
  rw [← isSome_vector?, List.mem_map]
  constructor
  · rintro ⟨site, member, rfl⟩
    have known := (remembers.mem_iff wf site).1 member
    obtain ⟨vector, first, -⟩ := Option.map_eq_some_iff.1 known
    rw [first]
    rfl
  · intro visited
    obtain ⟨vector, first⟩ := Option.isSome_iff_exists.1 visited
    refine ⟨⟨address, vector, learned visits address⟩, (remembers.mem_iff wf _).2 ?_, rfl⟩
    unfold remembered
    rw [first]
    rfl

theorem Remembers.used_eq (remembers : t.Remembers visits) (filled : t.Filled) :
    t.used = (visits.map (·.address)).toFinset.card := by
  have same : (t.sites.map (·.address)).toFinset = (visits.map (·.address)).toFinset := by
    ext address
    rw [List.mem_toFinset, List.mem_toFinset, remembers.mem_addresses filled.wellFormed]
  have once : (t.sites.map (·.address)).Nodup := nodup_addresses filled.wellFormed
  rw [← same, List.toFinset_card_of_nodup once, List.length_map, filled.used_eq]

/-- Whether nothing tells two tables apart but where the sites are in them. -/
structure Alike (t u : SiteTable) : Prop where
  find?_eq : ∀ address, u.find? address = t.find? address
  used_eq : u.used = t.used
  capacity_eq : u.capacity = t.capacity

theorem Remembers.same_size (remembers : t.Remembers visits) (filled : t.Filled)
    (otherwise : u.Remembers others) (other : u.Filled)
    (same : ∀ address, address ∈ others.map (·.address) ↔ address ∈ visits.map (·.address)) :
    u.used = t.used ∧ u.capacity = t.capacity := by
  have instructions : (others.map (·.address)).toFinset = (visits.map (·.address)).toFinset := by
    ext address
    rw [List.mem_toFinset, List.mem_toFinset, same]
  have used : u.used = t.used := by
    rw [remembers.used_eq filled, otherwise.used_eq other, instructions]
  exact ⟨used, (used ▸ other.capacity_least).unique filled.capacity_least⟩

theorem Remembers.alike (remembers : t.Remembers visits) (filled : t.Filled)
    (otherwise : u.Remembers others) (other : u.Filled)
    (vectors : ∀ address, vector? others address = vector? visits address)
    (learns : ∀ address, learned others address = learned visits address) : t.Alike u := by
  have instructions (address : UInt64) :
      address ∈ others.map (·.address) ↔ address ∈ visits.map (·.address) := by
    rw [← isSome_vector?, ← isSome_vector?, vectors]
  obtain ⟨used, capacity⟩ := remembers.same_size filled otherwise other instructions
  refine ⟨fun address => ?_, used, capacity⟩
  rw [remembers, otherwise, remembered, remembered, vectors, learns]

structure Refines (t : SiteTable) (visits : List Visit) : Prop where
  find?_eq : ∀ address, t.find? address = remembered visits address
  mem_iff : ∀ site, site ∈ t.sites ↔ remembered visits site.address = some site
  nodup : t.sites.Nodup
  visit_other : ∀ visited after, t.visit visited = .ok after →
    ∀ other ≠ visited.address, after.find? other = t.find? other
  grow : ∃ after, t.grow = .ok after ∧ after.capacity = 2 * t.capacity ∧
    after.sites.Perm t.sites ∧ ∀ address, after.find? address = t.find? address
  same_size : ∀ others u, (∅ : SiteTable).visitAll others = .ok u →
    (∀ address, address ∈ others.map (·.address) ↔ address ∈ visits.map (·.address)) →
      u.used = t.used ∧ u.capacity = t.capacity
  alike : ∀ others u, (∅ : SiteTable).visitAll others = .ok u →
    (∀ address, vector? others address = vector? visits address) →
    (∀ address, learned others address = learned visits address) → t.Alike u
  reordered : ∀ others : List Visit, others.Perm visits →
    (∀ address, learned others address = learned visits address) →
      ∃ u, (∅ : SiteTable).visitAll others = .ok u ∧ t.Alike u

theorem Refines.perm (refines : t.Refines visits) (otherwise : u.Refines others)
    (same : ∀ address, remembered others address = remembered visits address) :
    u.sites.Perm t.sites := by
  refine (List.perm_ext_iff_of_nodup otherwise.nodup refines.nodup).2 fun site => ?_
  rw [otherwise.mem_iff, refines.mem_iff, same]

theorem visitAll_refines (visits : List Visit) :
    ((∃ t, (∅ : SiteTable).visitAll visits = .ok t) ↔ Coherent visits) ∧
      ∀ t, (∅ : SiteTable).visitAll visits = .ok t → t.Refines visits := by
  refine ⟨exists_visitAll_empty visits, fun t done => ?_⟩
  have filled := (Built.empty.visitAll done).filled
  have remembers := remembers_empty.visitAll .empty done
  have alike : ∀ others u, (∅ : SiteTable).visitAll others = .ok u →
      (∀ address, vector? others address = vector? visits address) →
      (∀ address, learned others address = learned visits address) → t.Alike u := by
    intro others u otherDone
    exact remembers.alike filled (remembers_empty.visitAll .empty otherDone)
      (Built.empty.visitAll otherDone).filled
  constructor
  case find?_eq => exact remembers
  case mem_iff => exact remembers.mem_iff filled.wellFormed
  case nodup => exact filled.wellFormed.nodup
  case visit_other =>
    intro visited after next other elsewhere
    rw [(revises_visit filled.wellFormed next).find?_eq, if_neg elsewhere]
  case grow =>
    obtain ⟨after, grown, doubled⟩ := filled.wellFormed.exists_grow
    obtain ⟨wf, perm, -⟩ := grow_ok filled.wellFormed grown
    exact ⟨after, grown, doubled, perm, find?_of_perm filled.wellFormed wf perm⟩
  case same_size =>
    intro others u otherDone
    exact remembers.same_size filled (remembers_empty.visitAll .empty otherDone)
      (Built.empty.visitAll otherDone).filled
  case alike => exact alike
  case reordered =>
    intro others perm learns
    have coherent := (exists_visitAll_empty visits).1 ⟨t, done⟩
    obtain ⟨u, otherDone⟩ := (exists_visitAll_empty others).2 (coherent.of_subset perm.subset)
    exact ⟨u, otherDone, alike others u otherDone (coherent.vector?_perm perm) learns⟩

def sampleReordered : List Visit := [
  ⟨0x4010, ⟨0⟩, []⟩, ⟨0x4008, ⟨1⟩, []⟩, ⟨0x4010, ⟨0⟩, [.unset, .unknown]⟩, ⟨0x4004, ⟨0⟩, []⟩,
  ⟨0x4000, ⟨0⟩, [.unknown]⟩]

/-- The tables have their sites in different slots. -/
theorem visitAll_refines_sample :
    ∃ u, (∅ : SiteTable).visitAll sampleReordered = .ok u ∧ u ≠ sampleTable ∧
      sampleTable.Refines sampleVisits ∧ u.used = sampleTable.used ∧
      u.capacity = sampleTable.capacity ∧
      sampleTable.find? 0x4010 = some ⟨0x4010, ⟨0⟩, .unknown⟩ ∧
      u.sites.Perm sampleTable.sites := by
  have done : (∅ : SiteTable).visitAll sampleVisits = .ok sampleTable :=
    eq_ok_getD (by decide +kernel) ∅
  have otherDone : (∅ : SiteTable).visitAll sampleReordered =
      .ok (((∅ : SiteTable).visitAll sampleReordered).toOption.getD ∅) :=
    eq_ok_getD (by decide +kernel) ∅
  have same (address : UInt64) : address ∈ sampleReordered.map (·.address) ↔
      address ∈ sampleVisits.map (·.address) := by
    simp only [sampleReordered, sampleVisits, List.map_cons, List.map_nil, List.mem_cons]
    grind
  have alike (address : UInt64) :
      remembered sampleReordered address = remembered sampleVisits address := by
    -- Only of the instructions that were visited is there anything to compare.
    by_cases visited : address ∈ sampleVisits.map (·.address)
    · have each : (sampleVisits.map (·.address)).all (fun known =>
          remembered sampleReordered known = remembered sampleVisits known) = true := by decide
      exact of_decide_eq_true (List.all_eq_true.1 each address visited)
    · rw [remembered_eq_none_iff.2 visited, remembered_eq_none_iff, same]
      exact visited
  have refines := (visitAll_refines sampleVisits).2 sampleTable done
  have otherwise := (visitAll_refines sampleReordered).2 _ otherDone
  obtain ⟨used, capacity⟩ := refines.same_size sampleReordered _ otherDone same
  exact ⟨_, otherDone, by decide +kernel, refines, used, capacity,
    (refines.find?_eq 0x4010).trans (by decide +kernel), refines.perm otherwise alike⟩

end Refining

end Overrun.SiteTable
