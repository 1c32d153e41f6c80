import Mathlib.Data.List.Forall2
import Overrun.Proofs.Checker.Dropping
import Overrun.Proofs.Checker.Revisiting

/-! What unmapping a region takes out and what it leaves. Two things decide that an invariant is lost, the
entry that it names and the bytes that it confines its instruction to, and in a reachable state they come
to the same. -/

namespace Overrun

def Invariant.Lost (removed : List (Entry GlobalRef)) (inv : Invariant) : Prop :=
  ∃ e ∈ removed, inv.globalNode? = some e.id

instance (removed : List (Entry GlobalRef)) (inv : Invariant) : Decidable (inv.Lost removed) :=
  inferInstanceAs (Decidable (∃ e ∈ removed, _))

/-- Whether a site becomes another by losing its invariant, if that is one of those lost. -/
structure Site.Loses (lost : Invariant → Prop) (before after : Site) : Prop where
  address : after.address = before.address
  vector : after.vector = before.vector
  changed : after.invariant ≠ before.invariant ↔ lost before.invariant
  unknown : lost before.invariant → after.invariant = .unknown

structure Activation.Loses (lost : Invariant → Prop) (before after : Activation) : Prop where
  rest : after = { before with sites := after.sites }
  used : after.sites.used = before.sites.used
  slots : List.Forall₂ (Option.Rel (Site.Loses lost))
    before.sites.slots.toList after.sites.slots.toList

structure Thread.Loses (lost : Invariant → Prop) (before after : Thread) : Prop where
  rest : after = { before with stack := after.stack }
  frames : List.Forall₂ (Activation.Loses lost) before.stack.frames after.stack.frames

section Loses

variable {doomed : Invariant → Bool} {lost : Invariant → Prop}

private theorem forall₂_map_slots {α : Type} {R : α → α → Prop} {f : α → α}
    {slots : List (Option α)} (each : ∀ a, some a ∈ slots → R a (f a)) :
    List.Forall₂ (Option.Rel R) slots (slots.map (Option.map f)) := by
  rw [List.forall₂_map_right_iff, List.forall₂_same]
  intro slot member
  cases slot with
  | none => exact .none
  | some a => exact .some (each a member)

theorem Site.loses_forgotten {site : Site} (spared : doomed .unknown = false)
    (picks : doomed site.invariant = true ↔ lost site.invariant) :
    site.Loses lost (SiteTable.forgotten doomed site) := by
  unfold SiteTable.forgotten
  split
  · next picked =>
    refine ⟨rfl, rfl, iff_of_true (fun same => ?_) (picks.1 picked), fun _ => rfl⟩
    have unpicked := picked
    rw [← same] at unpicked
    exact absurd (spared.symm.trans unpicked) Bool.false_ne_true
  · next kept =>
    have present : ¬lost site.invariant := fun gone => kept (picks.2 gone)
    exact ⟨rfl, rfl, iff_of_false (fun differs => differs rfl) present,
      fun gone => absurd gone present⟩

theorem Activation.loses_forget {a : Activation} (spared : doomed .unknown = false)
    (picks : ∀ site ∈ a.sites.sites, doomed site.invariant = true ↔ lost site.invariant) :
    a.Loses lost (a.forget doomed) := by
  refine ⟨rfl, rfl, ?_⟩
  have slots : (a.forget doomed).sites.slots.toList =
      a.sites.slots.toList.map (Option.map (SiteTable.forgotten doomed)) := Array.toList_map
  rw [slots]
  refine forall₂_map_slots fun site member => Site.loses_forgotten spared (picks site ?_)
  exact List.mem_filterMap.2 ⟨some site, member, rfl⟩

theorem Thread.loses_forget {t : Thread} (spared : doomed .unknown = false)
    (picks : t.stack.EachSite fun site => doomed site.invariant = true ↔ lost site.invariant) :
    t.Loses lost (t.forget doomed) := by
  refine ⟨rfl, ?_⟩
  rw [forget_eq, ShadowStack.frames_map, List.forall₂_map_right_iff, List.forall₂_same]
  intro a member
  obtain ⟨depth, found⟩ := List.mem_iff_getElem?.1 member
  exact Activation.loses_forget spared (picks depth a found)

end Loses

namespace Invariant

variable {registered : IntervalMap Registration} {globals : IntervalMap GlobalRef} {depth : Nat}
  {inv : Invariant}

theorem Live.stale_without (live : inv.Live registered globals depth) (wf : globals.WellFormed)
    (gone : Span → Bool) :
    inv.stale (globals.without gone) = true ↔
      ∃ node span block, inv = .global node span block ∧ gone span = true := by
  cases inv with
  | global node span block =>
    obtain ⟨iv, there, rfl⟩ := live
    have known : (globals.without gone).hasNode node = !gone iv.span := by
      rw [Bool.eq_iff_iff, IntervalMap.hasNode_iff, Bool.not_eq_true']
      constructor
      · rintro ⟨e, stays, named⟩
        obtain ⟨member, kept⟩ := List.mem_filter.1 stays
        cases wf.eq_of_id member there named
        simpa using kept
      · intro kept
        exact ⟨_, List.mem_filter.2 ⟨there, by simp [kept]⟩, rfl⟩
    simp [stale, globalNode?, known]
  | _ => simp [stale, globalNode?]

theorem Live.lost_iff (live : inv.Live registered globals depth) (wf : globals.WellFormed)
    (gone : Span → Bool) :
    inv.Lost (globals.entries.filter fun e => gone e.interval.span) ↔
      ∃ node span block, inv = .global node span block ∧ gone span = true := by
  cases inv with
  | global node span block =>
    obtain ⟨iv, there, rfl⟩ := live
    constructor
    · rintro ⟨e, taken, named⟩
      obtain ⟨member, picked⟩ := List.mem_filter.1 taken
      cases wf.eq_of_id there member (Option.some.inj named)
      exact ⟨_, _, _, rfl, picked⟩
    · rintro ⟨_, _, _, ⟨⟩, picked⟩
      exact ⟨_, List.mem_filter.2 ⟨there, picked⟩, rfl⟩
  | _ => simp [Lost, globalNode?]

end Invariant

namespace Checker

variable {c after : Checker}

def reaching (region : Span) (c : Checker) : List (Entry GlobalRef) :=
  c.globals.entries.filter fun e => e.interval.span.Meets region

/-- What unmapping a region comes to. The entries that reach into it are gone, every invariant that was
learned of one of them is unknown, and nothing else is touched but the counters. -/
structure Unmapped (region : Span) (c after : Checker) : Prop where
  nowhere : region.size = 0 → after = c
  rest : after =
    { c with globals := after.globals, threads := after.threads, statistics := after.statistics }
  globals : after.globals =
    { c.globals with entries := c.globals.entries.filter fun e => ¬e.interval.span.Meets region }
  threads : List.Forall₂ (Option.Rel (Thread.Loses (Invariant.Lost (c.reaching region))))
    c.threads after.threads
  statistics : after.statistics =
    { c.statistics with
      globalsRemoved := c.statistics.globalsRemoved + (c.reaching region).length
      preened := after.statistics.preened
      changed := c.statistics.changed
        + (c.invariants.zip after.invariants).countP fun (old, new) => old ≠ new }
  /-- What was learned of the entries that are gone is what reaches into the region. -/
  lost : ∀ tid t, c.thread? tid = some t → t.stack.EachSite fun site =>
    site.invariant.Lost (c.reaching region) ↔
      ∃ node span block, site.invariant = .global node span block ∧ span.Meets region
  forgiven : ∀ tid t, c.thread? tid = some t → ∀ depth a, t.stack.get? depth = some a →
    ∀ site ∈ a.sites.sites, site.invariant.Lost (c.reaching region) →
      after.Forgiving tid depth site.address

theorem WellFormed.blank_forget (wf : c.WellFormed) {doomed : Invariant → Bool}
    (threads : after.threads = c.threads.map (Option.map (Thread.forget doomed)))
    {tid : ThreadId} {t : Thread} (there : c.thread? tid = some t) {depth : Nat} {a : Activation}
    (found : t.stack.get? depth = some a) {site : Site} (member : site ∈ a.sites.sites)
    (picked : doomed site.invariant = true) : after.Blank tid depth site.address := by
  have sitesWf := ((wf.threads tid t there).live depth a found).1
  have before : c.table? tid depth = some a.sites :=
    (table?_eq there depth).trans (congrArg (Option.map Activation.sites) found)
  intro table held new stored named
  rw [table?_forget threads, before] at held
  cases held
  rw [SiteTable.sites_forget] at stored
  obtain ⟨old, oldMember, rfl⟩ := List.mem_map.1 stored
  rw [SiteTable.forgotten_address] at named
  have first := (SiteTable.find?_eq_some_iff sitesWf).2 ⟨oldMember, named⟩
  have second := (SiteTable.find?_eq_some_iff sitesWf).2 ⟨member, rfl⟩
  cases first.symm.trans second
  unfold SiteTable.forgotten
  rw [if_pos picked]
  rfl

theorem countP_zip_forgotten {doomed : Invariant → Bool} (spared : doomed .unknown = false)
    (invariants : List Invariant) :
    (invariants.zip (invariants.map (Invariant.forgotten doomed))).countP
        (fun (old, new) => old ≠ new) = invariants.countP doomed := by
  induction invariants with
  | nil => rfl
  | cons inv rest ih =>
    have here : decide (inv ≠ inv.forgotten doomed) = doomed inv := by
      unfold Invariant.forgotten
      cases picked : doomed inv with
      | true =>
        have known : inv ≠ .unknown := by
          rintro rfl
          exact Bool.false_ne_true (spared.symm.trans picked)
        simp [known]
      | false => simp
    simp only [List.map_cons, List.zip_cons_cons, List.countP_cons, ih, here]

theorem WellFormed.unmapped_exact (wf : c.WellFormed) (region : Span) :
    c.Unmapped region (c.unmapped region) := by
  let reached : Span → Bool := fun s => s.Meets region
  let stale := Invariant.stale (c.globals.without reached)
  obtain ⟨preened, dropped⟩ := eq_of_unpreened (wf.unmapped_unpreened region)
  have threads : (c.unmapped region).threads =
      c.threads.map (Option.map (Thread.forget stale)) := congrArg Checker.threads dropped
  have afterWf := wellFormed_unmapped wf region
  have lost : ∀ tid t, c.thread? tid = some t → t.stack.EachSite fun site =>
      site.invariant.Lost (c.reaching region) ↔
        ∃ node span block, site.invariant = .global node span block ∧ reached span = true :=
    fun tid t there depth a found site member =>
      (wf.live_site there found member).lost_iff wf.globals reached
  -- What is stale afterwards is just what is lost now, for nothing was stale before.
  have picks : ∀ tid t, c.thread? tid = some t → t.stack.EachSite fun site =>
      stale site.invariant = true ↔ site.invariant.Lost (c.reaching region) :=
    fun tid t there depth a found site member =>
      ((wf.live_site there found member).stale_without wf.globals reached).trans
        (lost tid t there depth a found site member).symm
  constructor
  case nowhere =>
    intro empty
    unfold unmapped
    rw [Interval.clamped?_eq_none_iff.2 empty]
  case rest =>
    rw [dropped]
    rfl
  case globals =>
    have left := congrArg Checker.globals dropped
    refine left.trans (congrArg (IntervalMap.mk · c.globals.nextId) ?_)
    simp only [decide_not]
  case threads =>
    rw [threads]
    refine forall₂_map_slots fun t member => ?_
    obtain ⟨tid, there⟩ := exists_thread? member
    exact Thread.loses_forget rfl (picks tid t there)
  case statistics =>
    have counted : (c.invariants.zip (c.unmapped region).invariants).countP
        (fun (old, new) => old ≠ new) = c.invariants.countP stale := by
      have forgotten : (c.unmapped region).invariants =
          c.invariants.map (Invariant.forgotten stale) := by
        rw [dropped]
        exact invariants_forget stale c
      rw [forgotten]
      exact countP_zip_forgotten rfl c.invariants
    rw [counted, dropped]
    unfold reaching
    rw [← List.countP_eq_length_filter]
    rfl
  case lost =>
    intro tid t there
    refine (lost tid t there).mono fun site same => ?_
    simpa only [reached, decide_eq_true_eq] using same
  case forgiven =>
    intro tid t there depth a found site member gone
    have picked := (picks tid t there depth a found site member).2 gone
    exact (wf.blank_forget threads there found member picked).forgiving afterWf

theorem Reachable.unmap_exact (reachable : c.Reachable) (region : Span) :
    ∃ o, c.unmap region = .ok o ∧ c.Unmapped region o.checker := by
  obtain ⟨events, done⟩ := reachable.wellFormed.unmap_ok region
  exact ⟨_, done, reachable.wellFormed.unmapped_exact region⟩

theorem unmap_exact_sample :
    ∃ o, sample.unmap ⟨0x5010, 8⟩ = .ok o ∧ o.checker.globals.entries = [] ∧
      o.checker.Forgiving ⟨0⟩ 2 0x3000 := by
  have callee : sampleThread.stack.get? 2 = some sampleThread.stack.top := by decide +kernel
  have table : ⟨0x3000, ⟨1⟩, .global ⟨0⟩ ⟨0x5000, 64⟩ ⟨0⟩⟩ ∈
      sampleThread.stack.top.sites.sites := by decide +kernel
  obtain ⟨o, done, unmapped⟩ := reachable_sample.unmap_exact ⟨0x5010, 8⟩
  refine ⟨o, done, ?_, ?_⟩
  · rw [unmapped.globals]
    decide +kernel
  · exact unmapped.forgiven ⟨0⟩ _ thread?_sample 2 _ callee _ table (by decide +kernel)

end Checker

end Overrun
