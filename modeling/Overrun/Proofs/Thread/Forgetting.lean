import Overrun.Proofs.Address.Numbering
import Overrun.Proofs.Thread.WellFormed

/-! Forgetting is decided site by site, so forgetting twice is forgetting what either picks, and two picks
that agree on all that was learned come to the same. A global invariant is stale once its entry is gone;
entries that are gone never come back, for their numbers are not given out again. -/

namespace Overrun

namespace SiteTable

variable {t : SiteTable} {p q : Invariant → Bool}

theorem forgotten_forgotten (p q : Invariant → Bool) (site : Site) :
    forgotten q (forgotten p site) = forgotten (fun inv => p inv || q inv) site := by
  unfold forgotten
  by_cases picked : p site.invariant = true
  · simp only [picked, if_true, Bool.true_or]
    split <;> rfl
  · simp only [picked, Bool.false_or]
    rfl

theorem forget_congr (same : ∀ site ∈ t.sites, p site.invariant = q site.invariant) :
    t.forget p = t.forget q := by
  unfold forget mapSites
  congr 1
  apply Array.map_congr_left
  intro slot member
  cases slot with
  | none => rfl
  | some site =>
    have stored : site ∈ t.sites :=
      List.mem_filterMap.2 ⟨some site, Array.mem_toList_iff.2 member, rfl⟩
    have picked := same site stored
    simp only [Option.map_some, picked]

theorem forget_forget (t : SiteTable) (p q : Invariant → Bool) :
    (t.forget p).forget q = t.forget fun inv => p inv || q inv := by
  have each : Option.map (forgotten q) ∘ Option.map (forgotten p) =
      Option.map (forgotten fun inv => p inv || q inv) := by
    rw [Option.map_comp_map]
    exact congrArg Option.map (funext (forgotten_forgotten p q))
  have slots : (t.slots.map (Option.map (forgotten p))).map (Option.map (forgotten q)) =
      t.slots.map (Option.map (forgotten q) ∘ Option.map (forgotten p)) := Array.map_map
  rw [each] at slots
  exact congrArg (SiteTable.mk · t.used) slots

theorem forget_never (t : SiteTable) : (t.forget fun _ => false) = t := by
  have nothing : Option.map (forgotten fun _ => false) = id := by
    funext slot
    cases slot <;> rfl
  have slots := Array.map_id t.slots
  rw [← nothing] at slots
  exact congrArg (SiteTable.mk · t.used) slots

end SiteTable

def Activation.forget (doomed : Invariant → Bool) (a : Activation) : Activation :=
  { a with sites := a.sites.forget doomed }

namespace ShadowStack

variable {s : ShadowStack} {f g : Activation → Activation}

theorem map_congr (same : ∀ depth a, s.get? depth = some a → f a = g a) : s.map f = s.map g := by
  have each : ∀ a ∈ s.top :: s.below, f a = g a := by
    intro a member
    obtain ⟨depth, inside, found⟩ := List.getElem_of_mem (List.mem_reverse.2 member)
    exact same depth a (List.getElem?_eq_some_iff.2 ⟨inside, found⟩)
  unfold map
  rw [each _ (.head _), List.map_congr_left fun a member => each a (.tail _ member)]

theorem map_map (s : ShadowStack) (f g : Activation → Activation) :
    (s.map f).map g = s.map (g ∘ f) := by
  unfold map
  rw [List.map_map]
  rfl

theorem map_id (s : ShadowStack) : s.map id = s := by
  unfold map
  rw [List.map_id]
  rfl

end ShadowStack

namespace Thread

variable {t : Thread} {p q : Invariant → Bool}

theorem forget_eq (doomed : Invariant → Bool) (t : Thread) :
    t.forget doomed = { t with stack := t.stack.map (Activation.forget doomed) } :=
  rfl

theorem forget_congr (same : ∀ depth a, t.stack.get? depth = some a →
      ∀ site ∈ a.sites.sites, p site.invariant = q site.invariant) :
    t.forget p = t.forget q := by
  rw [forget_eq, forget_eq, ShadowStack.map_congr]
  intro depth a found
  unfold Activation.forget
  rw [SiteTable.forget_congr (same depth a found)]

theorem forget_forget (t : Thread) (p q : Invariant → Bool) :
    (t.forget p).forget q = t.forget fun inv => p inv || q inv := by
  have each : Activation.forget q ∘ Activation.forget p =
      Activation.forget fun inv => p inv || q inv := by
    funext a
    exact congrArg (fun sites => { a with sites := sites }) (a.sites.forget_forget p q)
  have stack := t.stack.map_map (Activation.forget p) (Activation.forget q)
  rw [each] at stack
  exact congrArg (fun s => { t with stack := s }) stack

theorem forget_never (t : Thread) : (t.forget fun _ => false) = t := by
  have each : (Activation.forget fun _ => false) = id := by
    funext a
    exact congrArg (fun sites => { a with sites := sites }) a.sites.forget_never
  rw [forget_eq, each, ShadowStack.map_id]

end Thread

/-- Whether an invariant is of a global that is gone. -/
def Invariant.stale (globals : IntervalMap GlobalRef) (inv : Invariant) : Bool :=
  inv.globalNode?.any fun node => !globals.hasNode node

namespace Invariant

variable {registered : IntervalMap Registration} {start globals next : IntervalMap GlobalRef}
  {depth : Nat} {inv : Invariant}

theorem Live.not_stale (live : inv.Live registered globals depth) : inv.stale globals = false := by
  cases inv with
  | global node span block =>
    obtain ⟨iv, there, -⟩ := live
    have known : globals.hasNode node = true := IntervalMap.hasNode_iff.2 ⟨_, there, rfl⟩
    simp [stale, globalNode?, known]
  | _ => rfl

theorem Live.of_not_stale (live : inv.Live registered start depth) (wf : start.WellFormed)
    (before : start.Precedes globals) (fresh : inv.stale globals = false) :
    inv.Live registered globals depth := by
  cases inv with
  | global node span block =>
    obtain ⟨iv, there, same⟩ := live
    have known : globals.hasNode node = true := by simpa [stale, globalNode?] using fresh
    obtain ⟨e, member, named⟩ := IntervalMap.hasNode_iff.1 known
    have early : e.id.index < start.nextId.index := named ▸ wf.fresh _ there
    have kept := wf.eq_of_id (before.old e member early) there named
    exact ⟨iv, kept ▸ member, same⟩
  | _ => exact live

theorem Live.stale_mono (live : inv.Live registered start depth) (wf : start.WellFormed)
    (before : start.Precedes globals) (after : globals.Precedes next)
    (gone : inv.stale globals = true) : inv.stale next = true := by
  cases fresh : inv.stale next with
  | true => rfl
  | false => ?_
  have again := live.of_not_stale wf (before.trans after) fresh
  cases inv with
  | global node span block =>
    obtain ⟨iv, there, -⟩ := live
    obtain ⟨other, back, -⟩ := again
    have early : node.index < globals.nextId.index :=
      Nat.lt_of_lt_of_le (wf.fresh _ there) before.counted
    have known : globals.hasNode node = true :=
      IntervalMap.hasNode_iff.2 ⟨_, after.old _ back early, rfl⟩
    simp [stale, globalNode?, known] at gone
  | _ => contradiction

end Invariant

namespace Thread.WellFormed

variable {t : Thread} {start globals next : IntervalMap GlobalRef}

theorem forget_stale (wf : t.WellFormed globals) : t.forget (Invariant.stale globals) = t := by
  have fresh : t.forget (Invariant.stale globals) = t.forget fun _ => false :=
    forget_congr fun depth a found site member => ((wf.live depth a found).2 site member).not_stale
  rw [fresh, forget_never]

/-- Forgetting what has become stale since makes up for all that is stale by now. -/
theorem forget_since (wf : t.WellFormed start) (numbered : start.WellFormed)
    (before : start.Precedes globals) (after : globals.Precedes next) {void : Invariant → Bool}
    (picks : ∀ depth inv, inv.Live t.registered globals depth → void inv = inv.stale next) :
    (t.forget (Invariant.stale globals)).forget void = t.forget (Invariant.stale next) := by
  rw [forget_forget]
  apply forget_congr
  intro depth a found site member
  have live := (wf.live depth a found).2 site member
  cases gone : site.invariant.stale globals with
  | true => exact (live.stale_mono numbered before after gone).symm
  | false => exact picks depth _ (live.of_not_stale numbered before gone)

end Thread.WellFormed

end Overrun
