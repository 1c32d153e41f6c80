import Overrun.Proofs.Address.Bytes
import Overrun.Proofs.Checker.Balance

/-! Unmapping a region drops the global entries that have an address in it and what was learned of them,
so regions can be unmapped in parts and in any order. How many invariants are looked at on the way does
depend on the order. -/

namespace Overrun

namespace IntervalMap

variable {α : Type} {m : IntervalMap α} {p q : Span → Bool}

def without (gone : Span → Bool) (m : IntervalMap α) : IntervalMap α :=
  { m with entries := m.entries.filter fun e => !gone e.interval.span }

theorem precedes_without (gone : Span → Bool) (m : IntervalMap α) :
    m.Precedes (m.without gone) :=
  ⟨Nat.le_refl _, fun _ member _ => (List.mem_filter.1 member).1⟩

theorem without_without (p q : Span → Bool) (m : IntervalMap α) :
    (m.without p).without q = m.without fun s => p s || q s := by
  unfold without
  simp only [List.filter_filter, Bool.not_or, Bool.and_comm]

theorem without_nothing (spared : ∀ e ∈ m.entries, p e.interval.span = false) :
    m.without p = m := by
  have all : m.entries.filter (fun e => !p e.interval.span) = m.entries :=
    List.filter_eq_self.2 fun e member => congrArg not (spared e member)
  unfold without
  rw [all]

theorem takeRange_eq {region : Span} {range : Interval}
    (clamped : Interval.clamped? region.start region.size = some range) (m : IntervalMap α) :
    m.takeRange range = (m.entries.filter fun e => e.interval.span.Meets region,
      m.without fun s => s.Meets region) := by
  unfold takeRange without
  simp only [Interval.overlaps_clamped clamped, decide_not]

theorem countP_without (p q : Span → Bool) (m : IntervalMap α) :
    m.entries.countP (fun e => p e.interval.span) +
        (m.without p).entries.countP (fun e => q e.interval.span) =
      m.entries.countP fun e => p e.interval.span || q e.interval.span := by
  unfold without
  dsimp only
  induction m.entries with
  | nil => rfl
  | cons e rest ih =>
    cases picked : p e.interval.span with
    | true => simp [picked, ← ih, Nat.add_right_comm]
    | false => simp [picked, List.countP_cons, ← ih, Nat.add_assoc]

end IntervalMap

namespace Invariant

def forgotten (doomed : Invariant → Bool) (inv : Invariant) : Invariant :=
  if doomed inv then unknown else inv

theorem countP_forgotten {p q : Invariant → Bool} (spared : q unknown = false)
    (invariants : List Invariant) :
    invariants.countP p + (invariants.map (forgotten p)).countP q =
      invariants.countP fun inv => p inv || q inv := by
  induction invariants with
  | nil => rfl
  | cons inv rest ih =>
    rw [List.map_cons, List.countP_cons, List.countP_cons, List.countP_cons, ← ih]
    unfold forgotten
    cases picked : p inv with
    | true => simp [spared, Nat.add_right_comm]
    | false => simp [Nat.add_assoc]

end Invariant

theorem Thread.sites_forget (doomed : Invariant → Bool) (t : Thread) :
    (t.forget doomed).sites = t.sites.map (SiteTable.forgotten doomed) := by
  unfold sites
  rw [forget_eq, ShadowStack.frames_map, List.flatMap_map, List.map_flatMap]
  apply congrArg (t.stack.frames.flatMap ·)
  funext a
  exact a.sites.sites_forget doomed

namespace Checker

variable {c after : Checker} {p q : Invariant → Bool}

/-- The state but for how many invariants unmapping has looked at. -/
def unpreened (c : Checker) : Checker :=
  { c with statistics := { c.statistics with preened := 0 } }

def forget (doomed : Invariant → Bool) (c : Checker) : Checker :=
  { c with
    threads := c.threads.map (Option.map (Thread.forget doomed))
    statistics := { c.statistics with
      changed := c.statistics.changed + c.invariants.countP doomed } }

theorem exists_thread? {t : Thread} (member : some t ∈ c.threads) :
    ∃ tid, c.thread? tid = some t := by
  obtain ⟨index, there⟩ := List.mem_iff_getElem?.1 member
  exact ⟨⟨index⟩, Option.join_eq_some_iff.2 there⟩

theorem WellFormed.live_site (wf : c.WellFormed) {tid : ThreadId} {t : Thread}
    (there : c.thread? tid = some t) {depth : Nat} {a : Activation}
    (found : t.stack.get? depth = some a) {site : Site} (member : site ∈ a.sites.sites) :
    site.invariant.Live t.registered c.globals depth :=
  ((wf.threads tid t there).live depth a found).2 site member

theorem mem_invariants {inv : Invariant} :
    inv ∈ c.invariants ↔ ∃ tid t depth a, c.thread? tid = some t ∧
      t.stack.get? depth = some a ∧ ∃ site ∈ a.sites.sites, site.invariant = inv := by
  constructor
  · intro stored
    obtain ⟨⟨tid, t⟩, there, learned⟩ := List.mem_flatMap.1 stored
    obtain ⟨site, held, same⟩ := List.mem_map.1 learned
    obtain ⟨a, frame, member⟩ := List.mem_flatMap.1 held
    obtain ⟨depth, found⟩ := List.mem_iff_getElem?.1 frame
    exact ⟨tid, t, depth, a, mem_liveThreads.1 there, found, site, member, same⟩
  · rintro ⟨tid, t, depth, a, there, found, site, member, same⟩
    have frame : a ∈ t.stack.frames := List.mem_iff_getElem?.2 ⟨depth, found⟩
    exact List.mem_flatMap.2 ⟨(tid, t), mem_liveThreads.2 there,
      List.mem_map.2 ⟨site, List.mem_flatMap.2 ⟨a, frame, member⟩, same⟩⟩

theorem invariants_forget (doomed : Invariant → Bool) (c : Checker) :
    (c.forget doomed).invariants = c.invariants.map (Invariant.forgotten doomed) := by
  have live : (c.forget doomed).liveThreads =
      c.liveThreads.map (Prod.map id (Thread.forget doomed)) := liveThreads_map rfl
  unfold invariants
  rw [live, List.flatMap_map, List.map_flatMap]
  apply congrArg (c.liveThreads.flatMap ·)
  funext ⟨tid, t⟩
  show (t.forget doomed).sites.map _ = (t.sites.map _).map _
  rw [Thread.sites_forget, List.map_map, List.map_map]
  apply congrArg (t.sites.map ·)
  funext site
  show (SiteTable.forgotten doomed site).invariant = site.invariant.forgotten doomed
  unfold SiteTable.forgotten Invariant.forgotten
  split <;> rfl

theorem forget_never (c : Checker) : c.forget (fun _ => false) = c := by
  have each : Option.map (Thread.forget fun _ => false) = id := by
    funext slot
    cases slot with
    | none => rfl
    | some t => exact congrArg some t.forget_never
  unfold forget
  rw [each, List.map_id, List.countP_false]
  rfl

theorem forget_forget (spared : q .unknown = false) (c : Checker) :
    (c.forget p).forget q = c.forget fun inv => p inv || q inv := by
  have each : Option.map (Thread.forget q) ∘ Option.map (Thread.forget p) =
      Option.map (Thread.forget fun inv => p inv || q inv) := by
    rw [Option.map_comp_map]
    exact congrArg Option.map (funext fun t => t.forget_forget p q)
  have counted := Invariant.countP_forgotten (p := p) spared c.invariants
  rw [← invariants_forget] at counted
  have threads : (c.forget p).threads.map (Option.map (Thread.forget q)) =
      c.threads.map (Option.map (Thread.forget fun inv => p inv || q inv)) := by
    rw [← each]
    exact List.map_map
  unfold forget at threads counted ⊢
  dsimp only at threads counted ⊢
  rw [threads, Nat.add_assoc, counted]

theorem WellFormed.forget_congr (wf : c.WellFormed)
    (same : ∀ (t : Thread) depth inv, inv.Live t.registered c.globals depth → p inv = q inv) :
    c.forget p = c.forget q := by
  have threads : c.threads.map (Option.map (Thread.forget p)) =
      c.threads.map (Option.map (Thread.forget q)) := by
    apply List.map_congr_left
    intro slot member
    cases slot with
    | none => rfl
    | some t =>
      obtain ⟨tid, there⟩ := exists_thread? member
      refine congrArg some (Thread.forget_congr fun depth a found site stored => ?_)
      exact same t depth _ (wf.live_site there found stored)
  have counted : c.invariants.countP p = c.invariants.countP q := by
    apply List.countP_congr
    intro inv member
    obtain ⟨tid, t, depth, a, there, found, site, stored, rfl⟩ := mem_invariants.1 member
    rw [same t depth _ (wf.live_site there found stored)]
  unfold forget
  rw [threads, counted]

variable {gone first second : Span → Bool} {region : Span}

/-- The state without the global entries whose bytes `gone` picks and without what was learned of
them. -/
def dropping (gone : Span → Bool) (c : Checker) : Checker :=
  let left := c.forget (Invariant.stale (c.globals.without gone))
  { left with
    globals := c.globals.without gone
    statistics := { left.statistics with
      globalsRemoved :=
        c.statistics.globalsRemoved + c.globals.entries.countP fun e => gone e.interval.span } }

theorem dropping_unpreened (gone : Span → Bool) (c : Checker) :
    c.unpreened.dropping gone = (c.dropping gone).unpreened :=
  rfl

theorem WellFormed.dropping_dropping (wf : c.WellFormed) (first second : Span → Bool) :
    (c.dropping first).dropping second = c.dropping fun s => first s || second s := by
  have globals := IntervalMap.without_without first second c.globals
  have counted := IntervalMap.countP_without first second c.globals
  have before := c.globals.precedes_without first
  have after := (c.globals.without first).precedes_without second
  rw [globals] at after
  have forgotten : (c.forget (Invariant.stale (c.globals.without first))).forget
        (Invariant.stale (c.globals.without fun s => first s || second s)) =
      c.forget (Invariant.stale (c.globals.without fun s => first s || second s)) := by
    rw [forget_forget rfl]
    apply wf.forget_congr
    intro t depth inv live
    -- What the first lost the second loses too, for an entry that is gone does not come back.
    cases gone : inv.stale (c.globals.without first) with
    | true => exact (live.stale_mono wf.globals before after gone).symm
    | false => exact Bool.false_or _
  have whole : (c.dropping first).dropping second =
      let left := (c.forget (Invariant.stale (c.globals.without first))).forget
        (Invariant.stale ((c.globals.without first).without second))
      { left with
        globals := (c.globals.without first).without second
        statistics := { left.statistics with
          globalsRemoved := c.statistics.globalsRemoved
            + c.globals.entries.countP (fun e => first e.interval.span)
            + (c.globals.without first).entries.countP fun e => second e.interval.span } } := rfl
  rw [whole, globals, forgotten, Nat.add_assoc, counted]
  rfl

theorem WellFormed.dropping_nothing (wf : c.WellFormed)
    (spared : ∀ e ∈ c.globals.entries, gone e.interval.span = false) : c.dropping gone = c := by
  have globals : c.globals.without gone = c.globals := IntervalMap.without_nothing spared
  have counted : c.globals.entries.countP (fun e => gone e.interval.span) = 0 :=
    List.countP_eq_zero.2 fun e member => Bool.not_eq_true _ ▸ spared e member
  have forgotten : c.forget (Invariant.stale c.globals) = c := by
    rw [wf.forget_congr fun t depth inv live => live.not_stale, forget_never]
  unfold dropping
  dsimp only
  rw [globals, forgotten, counted]
  rfl

theorem WellFormed.afterUnmap_unpreened (wf : c.WellFormed) {range : Interval}
    (clamped : Interval.clamped? region.start region.size = some range) :
    (c.afterUnmap range).unpreened = (c.dropping fun s => s.Meets region).unpreened := by
  have taken := IntervalMap.takeRange_eq clamped c.globals
  have forgotten : c.forget (voidedBy ((c.globals.takeRange range).1.map (·.id)) range) =
      c.forget (Invariant.stale (c.globals.without fun s => s.Meets region)) := by
    apply wf.forget_congr
    intro t depth inv live
    rw [voidedBy_eq_stale wf.globals live range, taken]
  have whole : (c.afterUnmap range).unpreened =
      let left := c.forget (voidedBy ((c.globals.takeRange range).1.map (·.id)) range)
      { left with
        globals := (c.globals.takeRange range).2
        statistics := { left.statistics with
          globalsRemoved := c.statistics.globalsRemoved + (c.globals.takeRange range).1.length
          preened := 0 } } := rfl
  rw [whole, forgotten, taken, ← List.countP_eq_length_filter]
  rfl

theorem WellFormed.unmapped_unpreened (wf : c.WellFormed) (region : Span) :
    (c.unmapped region).unpreened = (c.dropping fun s => s.Meets region).unpreened := by
  unfold unmapped
  cases clamped : Interval.clamped? region.start region.size with
  | none =>
    have empty := Interval.clamped?_eq_none_iff.1 clamped
    rw [wf.dropping_nothing fun e _ => decide_eq_false (Span.not_meets_of_size empty)]
  | some range =>
    dsimp only
    split
    · next nothing =>
      rw [IntervalMap.takeRange_eq clamped, List.isEmpty_iff, List.filter_eq_nil_iff] at nothing
      rw [wf.dropping_nothing fun e member => Bool.eq_false_iff.2 (nothing e member)]
    · exact wf.afterUnmap_unpreened clamped

theorem eq_of_unpreened (same : after.unpreened = c.unpreened) : ∃ preened, after =
    { c with statistics := { c.statistics with preened := preened } } := by
  refine ⟨after.statistics.preened, ?_⟩
  exact congrArg (fun d : Checker =>
    { d with statistics := { d.statistics with preened := after.statistics.preened } }) same

theorem wellFormed_unmapped (wf : c.WellFormed) (region : Span) :
    (c.unmapped region).WellFormed := by
  obtain ⟨events, done⟩ := wf.unmap_ok region
  exact wf.unmap done

theorem WellFormed.unmapped_unmapped (wf : c.WellFormed) (r s : Span) :
    ((c.unmapped r).unmapped s).unpreened =
      (c.dropping fun span => span.Meets r || span.Meets s).unpreened := by
  have middle := wellFormed_unmapped wf r
  calc ((c.unmapped r).unmapped s).unpreened
      = ((c.unmapped r).dropping fun span => span.Meets s).unpreened :=
        middle.unmapped_unpreened s
    _ = (c.unmapped r).unpreened.dropping fun span => span.Meets s :=
        (dropping_unpreened _ _).symm
    _ = (c.dropping fun span => span.Meets r).unpreened.dropping fun span => span.Meets s := by
        rw [wf.unmapped_unpreened]
    _ = ((c.dropping fun span => span.Meets r).dropping fun span => span.Meets s).unpreened :=
        dropping_unpreened _ _
    _ = (c.dropping fun span => span.Meets r || span.Meets s).unpreened := by
        rw [wf.dropping_dropping]

/-- A region may be unmapped in two parts, and any two regions in either order. It all comes to the same
state but for how many invariants are looked at on the way. -/
theorem Reachable.unmaps_regroup (reachable : c.Reachable) :
    (∀ start first second : UInt64, start.toNat + first.toNat < 0x10000000000000000 →
      first.toNat + second.toNat < 0x10000000000000000 →
      ∃ part both whole, c.unmap ⟨start, first⟩ = .ok part ∧
        part.checker.unmap ⟨start + first, second⟩ = .ok both ∧
        c.unmap ⟨start, first + second⟩ = .ok whole ∧
        both.checker.unpreened = whole.checker.unpreened) ∧
    ∀ r s : Span, ∃ early late middle last, c.unmap r = .ok early ∧
      early.checker.unmap s = .ok late ∧ c.unmap s = .ok middle ∧
      middle.checker.unmap r = .ok last ∧ late.checker.unpreened = last.checker.unpreened := by
  have wf := reachable.wellFormed
  have twice : ∀ r s, ∃ early late, c.unmap r = .ok early ∧ early.checker.unmap s = .ok late ∧
      late.checker.unpreened =
        (c.dropping fun span => span.Meets r || span.Meets s).unpreened := by
    intro r s
    obtain ⟨before, first⟩ := wf.unmap_ok r
    obtain ⟨after, second⟩ := (wf.unmap first).unmap_ok s
    exact ⟨_, _, first, second, wf.unmapped_unmapped r s⟩
  constructor
  · intro start first second fits short
    obtain ⟨part, both, early, late, parts⟩ := twice ⟨start, first⟩ ⟨start + first, second⟩
    obtain ⟨events, done⟩ := wf.unmap_ok ⟨start, first + second⟩
    refine ⟨part, both, _, early, late, done, parts.trans ?_⟩
    rw [wf.unmapped_unpreened]
    simp only [Span.meets_parts fits short, Bool.decide_or]
  · intro r s
    obtain ⟨early, late, first, second, there⟩ := twice r s
    obtain ⟨middle, last, third, fourth, back⟩ := twice s r
    refine ⟨early, late, middle, last, first, second, third, fourth, there.trans ?_⟩
    rw [back]
    simp only [Bool.or_comm]

theorem unmaps_regroup_sample :
    (∃ part both whole, sample.unmap ⟨0x4ff0, 0x30⟩ = .ok part ∧
      part.checker.unmap ⟨0x5020, 0x100⟩ = .ok both ∧
      sample.unmap ⟨0x4ff0, 0x130⟩ = .ok whole ∧
      both.checker.unpreened = whole.checker.unpreened) ∧
    ∃ early late middle last, sample.unmap ⟨0x5030, 0x1000⟩ = .ok early ∧
      early.checker.unmap ⟨0x5000, 0x38⟩ = .ok late ∧
      sample.unmap ⟨0x5000, 0x38⟩ = .ok middle ∧
      middle.checker.unmap ⟨0x5030, 0x1000⟩ = .ok last ∧
      late.checker.unpreened = last.checker.unpreened :=
  ⟨reachable_sample.unmaps_regroup.1 0x4ff0 0x30 0x100 (by decide) (by decide),
    reachable_sample.unmaps_regroup.2 ⟨0x5030, 0x1000⟩ ⟨0x5000, 0x38⟩⟩

end Checker

end Overrun
