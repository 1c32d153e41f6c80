import Overrun.Proofs.Checker.WellFormed

/-! What it means that the state of a checker is free of contradictions, said without a search. The
search finds nothing in such a state, and a well-formed checker is always in one. -/

namespace Overrun

/-- Whether the registered blocks, the activations and what they have learned fit together. -/
structure Thread.Consistent (globals : IntervalMap GlobalRef) (t : Thread) : Prop where
  disjoint : t.registered.Disjoint
  bottom : ∃ a, t.stack.get? 0 = some a ∧ a.isSentinel = true
  listed : ∀ e ∈ t.registered.entries, t.listedAt e.interval.first = [e.value.depth]
  registered : ∀ depth a, t.stack.get? depth = some a →
    ∀ address ∈ a.registered, ∃ e ∈ t.registered.entries, e.interval.first = address
  /-- Each site is where the search for its instruction ends. -/
  found : ∀ depth a, t.stack.get? depth = some a → a.sites.WellFormed
  present : ∀ depth a, t.stack.get? depth = some a → ∀ site ∈ a.sites.sites,
    ∀ node, site.invariant.globalNode? = some node → ∃ e ∈ globals.entries, e.id = node

structure Checker.Consistent (c : Checker) : Prop where
  globals : c.globals.Disjoint
  threads : ∀ tid t, c.thread? tid = some t → t.Consistent c.globals

theorem neighbourOverlaps_eq_nil (violation : Interval → Interval → Violation)
    {intervals : List Interval} (apart : intervals.Pairwise fun a b => ¬a.Overlaps b) :
    neighbourOverlaps violation intervals = [] := by
  induction intervals with
  | nil => rfl
  | cons a rest ih =>
    cases rest with
    | nil => rfl
    | cons b rest =>
      have away : ¬a.Overlaps b := List.rel_of_pairwise_cons apart (.head rest)
      unfold neighbourOverlaps
      simp only [if_neg away]
      exact ih apart.of_cons

theorem auditGlobals_eq_nil {globals : IntervalMap GlobalRef} (apart : globals.Disjoint) :
    auditGlobals globals = [] := by
  apply neighbourOverlaps_eq_nil
  exact List.pairwise_map.2 apart

theorem mem_frames_iff {s : ShadowStack} {a : Activation} {depth : Nat} :
    (a, depth) ∈ s.frames.zipIdx ↔ s.get? depth = some a :=
  List.mem_zipIdx_iff_getElem?

namespace Thread

variable {t : Thread} {tid : ThreadId}

theorem auditBottom_eq_nil_iff :
    t.auditBottom tid = [] ↔ ∃ a, t.stack.get? 0 = some a ∧ a.isSentinel = true := by
  unfold auditBottom
  cases t.stack.get? 0 with
  | none => simp
  | some bottom => by_cases sentinel : bottom.isSentinel = true <;> simp [sentinel]

theorem startsAt_iff (apart : t.registered.Disjoint) {address : UInt64} :
    t.startsAt address = true ↔ ∃ e ∈ t.registered.entries, e.interval.first = address := by
  unfold startsAt
  constructor
  · intro starts
    cases found : t.registered.covering? address with
    | none => simp [found] at starts
    | some e =>
      rw [found] at starts
      exact ⟨e, (IntervalMap.covering?_mem found).1, beq_iff_eq.1 starts⟩
  · rintro ⟨e, member, rfl⟩
    rw [apart.covering?_eq_some member e.interval.first_mem]
    simp

theorem reachable_iff {table : SiteTable} {slot : Nat} {site : Site}
    (held : table.slots[slot]?.join = some site) :
    reachable table slot site = true ↔
      site.address ≠ 0 ∧ table.probe site.address = .found slot site := by
  unfold reachable
  rw [Bool.and_eq_true, bne_iff_ne]
  refine and_congr_right fun _ => ?_
  cases ended : table.probe site.address with
  | found position met =>
    have there := (SiteTable.probeFrom_found ended).1
    constructor
    · intro same
      rw [beq_iff_eq.1 same, held] at there
      rw [beq_iff_eq.1 same, Option.some.inj there]
    · rintro ⟨⟩
      exact beq_self_eq_true slot
  | free position => simp
  | full => simp

theorem unreachableSites_eq_nil_iff {table : SiteTable} :
    unreachableSites table = [] ↔ table.WellFormed := by
  unfold unreachableSites
  rw [List.filterMap_eq_nil_iff]
  constructor
  · intro none slot site held
    have member : (some site, slot) ∈ table.slots.toList.zipIdx := by
      rw [List.mem_zipIdx_iff_getElem?, Array.getElem?_toList]
      exact Option.join_eq_some_iff.1 held
    have reached := none _ member
    by_cases ends : reachable table slot site = true
    · exact (reachable_iff held).1 ends
    · simp [ends] at reached
  · rintro wf ⟨held, slot⟩ member
    cases held with
    | none => rfl
    | some site =>
      have there : table.slots[slot]?.join = some site := by
        rw [← Array.getElem?_toList, List.mem_zipIdx_iff_getElem?.1 member]
        rfl
      simp [(reachable_iff there).2 (wf slot site there)]

theorem auditActivation_eq_nil_iff (apart : t.registered.Disjoint) {depth : Nat} {a : Activation} :
    t.auditActivation tid depth a = [] ↔
      (∀ address ∈ a.registered, ∃ e ∈ t.registered.entries, e.interval.first = address) ∧
        a.sites.WellFormed := by
  unfold auditActivation
  rw [List.append_eq_nil_iff, List.map_eq_nil_iff, List.map_eq_nil_iff, List.filter_eq_nil_iff,
    unreachableSites_eq_nil_iff]
  simp only [Bool.not_eq_true', Bool.not_eq_false, startsAt_iff apart]

theorem auditListing_eq_nil_iff {e : Entry Registration} :
    t.auditListing tid e = [] ↔ t.listedAt e.interval.first = [e.value.depth] := by
  unfold auditListing
  split
  · next depth listed =>
    rw [listed]
    by_cases same : depth = e.value.depth <;> simp [same]
  · next other =>
    simp only [List.cons_ne_nil, false_iff]
    exact other e.value.depth

/-- Where intervals are disjoint nothing but the listings of each is looked at. The entries are those from
some point on, with the interval before them if there is one. -/
theorem auditEntries_eq {previous : Option Interval} {entries : List (Entry Registration)}
    (apart : entries.Pairwise fun a b => ¬a.interval.Overlaps b.interval)
    (before : ∀ iv, previous = some iv → ∀ e ∈ entries, ¬iv.Overlaps e.interval) :
    t.auditEntries tid previous entries = entries.flatMap (t.auditListing tid) := by
  induction entries generalizing previous with
  | nil => rfl
  | cons e rest ih =>
    have none : previous.filter (fun iv => iv.Overlaps e.interval) = none := by
      cases previous with
      | none => rfl
      | some iv => simp [Option.filter, before iv rfl e (.head rest)]
    unfold auditEntries
    rw [none, List.flatMap_cons]
    refine congrArg _ (ih apart.of_cons ?_)
    rintro iv ⟨⟩ other member
    exact List.rel_of_pairwise_cons apart member

theorem audit_eq_nil_iff (apart : t.registered.Disjoint) :
    t.audit tid = [] ↔
      (∃ a, t.stack.get? 0 = some a ∧ a.isSentinel = true) ∧
      (∀ depth a, t.stack.get? depth = some a →
        (∀ address ∈ a.registered, ∃ e ∈ t.registered.entries, e.interval.first = address) ∧
          a.sites.WellFormed) ∧
      ∀ e ∈ t.registered.entries, t.listedAt e.interval.first = [e.value.depth] := by
  have entries : t.auditEntries tid none t.registered.entries = t.registered.entries.flatMap (t.auditListing tid) :=
    auditEntries_eq apart fun _ absurd => by contradiction
  unfold audit
  rw [entries, List.append_eq_nil_iff, List.append_eq_nil_iff, auditBottom_eq_nil_iff,
    List.flatMap_eq_nil_iff, List.flatMap_eq_nil_iff, and_assoc]
  simp only [auditListing_eq_nil_iff, Prod.forall, mem_frames_iff, auditActivation_eq_nil_iff apart]
  refine and_congr_right fun _ => and_congr_left fun _ => ?_
  exact ⟨fun fine depth a => fine a depth, fun fine a depth => fine depth a⟩

theorem auditInvariants_eq_nil_iff {globals : IntervalMap GlobalRef} :
    t.auditInvariants tid globals = [] ↔
      ∀ site ∈ t.sites, ∀ node, site.invariant.globalNode? = some node →
        ∃ e ∈ globals.entries, e.id = node := by
  unfold auditInvariants
  rw [List.filterMap_eq_nil_iff]
  refine forall_congr' fun site => forall_congr' fun _ => ?_
  cases site.invariant.globalNode? with
  | none => simp
  | some node => simp [← IntervalMap.hasNode_iff]

theorem Consistent.audit {globals : IntervalMap GlobalRef} (consistent : t.Consistent globals)
    (tid : ThreadId) : t.audit tid = [] :=
  (audit_eq_nil_iff consistent.disjoint).2 ⟨consistent.bottom,
    fun depth a there => ⟨consistent.registered depth a there, consistent.found depth a there⟩,
    consistent.listed⟩

theorem Consistent.auditInvariants {globals : IntervalMap GlobalRef}
    (consistent : t.Consistent globals) (tid : ThreadId) : t.auditInvariants tid globals = [] := by
  refine auditInvariants_eq_nil_iff.2 fun site member node learned => ?_
  obtain ⟨a, frame, member⟩ := List.mem_flatMap.1 member
  obtain ⟨depth, there⟩ := List.mem_iff_getElem?.1 frame
  exact consistent.present depth a there site member node learned

end Thread

theorem Thread.listedAt_of_matches {t : Thread} (wf : t.registered.WellFormed)
    (balanced : t.registered.Matches t.listings) {e : Entry Registration}
    (member : e ∈ t.registered.entries) : t.listedAt e.interval.first = [e.value.depth] := by
  have entries := wf.perm_cons_filter member e.interval.first_mem
  have listings := List.Perm.trans balanced (entries.map Entry.listing)
  have elsewhere : ((t.registered.entries.filter fun x => e.interval.first ∉ x.interval).map
      Entry.listing).filter (·.1 == e.interval.first) = [] := by
    apply List.filter_eq_nil_iff.2
    intro listing listingMember
    obtain ⟨x, xMember, rfl⟩ := List.mem_map.1 listingMember
    have apart := of_decide_eq_true (List.mem_filter.1 xMember).2
    intro same
    exact apart (beq_iff_eq.1 same ▸ x.interval.first_mem)
  have here : (e.listing.1 == e.interval.first) = true := beq_iff_eq.2 rfl
  have kept := (List.Perm.filter (·.1 == e.interval.first) listings).map Prod.snd
  simp only [List.map_cons, List.filter_cons, here, if_true, elsewhere] at kept
  exact List.perm_singleton.1 kept

namespace Thread.WellFormed

variable {globals : IntervalMap GlobalRef} {t : Thread}

theorem listed_registered (wf : t.WellFormed globals) {depth : Nat} {a : Activation}
    (there : t.stack.get? depth = some a) {address : UInt64} (listed : address ∈ a.registered) :
    ∃ e ∈ t.registered.entries, e.interval.first = address := by
  have listing : (address, depth) ∈ t.listings :=
    List.mem_flatMap.2 ⟨(a, depth), mem_frames_iff.2 there, List.mem_map_of_mem listed⟩
  obtain ⟨e, member, same⟩ := wf.balanced.mem_iff.1 listing
  exact ⟨e, member, congrArg Prod.fst same⟩

theorem consistent (wf : t.WellFormed globals) : t.Consistent globals where
  disjoint := wf.registered.disjoint
  bottom := by
    obtain ⟨bottom, found, highest⟩ := wf.grounded
    exact ⟨bottom, found, beq_iff_eq.2 highest⟩
  listed _ member := Thread.listedAt_of_matches wf.registered wf.balanced member
  registered _ _ there _ listed := wf.listed_registered there listed
  found depth a there := (wf.live depth a there).1
  present := by
    intro depth a there site member node learned
    have live := (wf.live depth a there).2 site member
    cases inv : site.invariant with
    | global named span block =>
      rw [inv] at live learned
      cases learned
      obtain ⟨iv, entry, -⟩ := live
      exact ⟨_, entry, rfl⟩
    | _ =>
      rw [inv] at learned
      contradiction

end Thread.WellFormed

namespace Checker

variable {c : Checker}

theorem WellFormed.consistent (wf : c.WellFormed) : c.Consistent :=
  ⟨wf.globals.disjoint, fun tid t there => (wf.threads tid t there).consistent⟩

theorem mem_liveThreads {tid : ThreadId} {t : Thread} :
    (tid, t) ∈ c.liveThreads ↔ c.thread? tid = some t := by
  unfold liveThreads thread?
  rw [List.mem_filterMap, Option.join_eq_some_iff]
  constructor
  · rintro ⟨⟨slot, index⟩, member, same⟩
    obtain ⟨held, rfl, made⟩ := Option.map_eq_some_iff.1 same
    cases made
    exact List.mem_zipIdx_iff_getElem?.1 member
  · intro held
    exact ⟨(some t, tid.index), List.mem_zipIdx_iff_getElem?.2 held, rfl⟩

theorem liveThreads_map {after : Checker} {f : Thread → Thread}
    (threads : after.threads = c.threads.map (Option.map f)) :
    after.liveThreads = c.liveThreads.map (Prod.map id f) := by
  unfold liveThreads
  rw [threads, List.zipIdx_map, List.filterMap_map, List.map_filterMap]
  congr 1
  funext ⟨slot, index⟩
  cases slot <;> rfl

/-- The search raises no false alarm. -/
theorem Consistent.audit (consistent : c.Consistent) : c.audit = [] := by
  unfold Checker.audit
  rw [auditGlobals_eq_nil consistent.globals]
  apply List.flatMap_eq_nil_iff.2
  rintro ⟨tid, t⟩ member
  have threadConsistent := consistent.threads tid t (mem_liveThreads.1 member)
  show t.audit tid ++ t.auditInvariants tid c.globals = []
  rw [threadConsistent.audit, threadConsistent.auditInvariants]
  rfl

theorem Consistent.selfCheck (consistent : c.Consistent) : c.selfCheck = .ok () := by
  unfold Checker.selfCheck
  rw [consistent.audit]
  split <;> rfl

/-- Of a checker in order, the check may as well be left out. -/
theorem WellFormed.checked (wf : c.WellFormed) {α : Type} (later : Except Fault α) :
    (do c.selfCheck; later) = later := by
  rw [wf.consistent.selfCheck]
  rfl

end Checker

end Overrun
