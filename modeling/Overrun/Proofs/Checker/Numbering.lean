import Overrun.Proofs.Checker.Balance

/-! The numbers of global blocks in the life of a checker. Loading gives out new ones and unmapping none, so a
number whose block is gone never stands for another, even if the same block is loaded again. -/

namespace Overrun.Checker

variable {c after middle last : Checker} {env : Environment}
  {ops later : List (Environment × Operation)} {early late : List Reply}

theorem Changed.precedes (changed : Changed env c after) : c.globals.Precedes after.globals := by
  cases changed with
  | thread | intern | report => exact .refl _
  | load blocks => exact (registerGlobals_keeps c blocks).1
  | unmap range => exact c.globals.precedes_takeRange range
  | consult found =>
    rw [found.consulted]
    exact .refl _

theorem Reachable.run_precedes (reachable : c.Reachable) (done : c.run ops = .ok (after, early)) :
    c.globals.Precedes after.globals := by
  induction ops generalizing c early with
  | nil =>
    cases done
    exact .refl _
  | cons first rest ih =>
    obtain ⟨o, stepped, done⟩ := bind_eq_ok.1 done
    obtain ⟨⟨last, replies⟩, ran, same⟩ := bind_eq_ok.1 done
    cases same
    have before := (reachable.wellFormed.step_changed stepped).precedes
    exact before.trans (ih (reachable.step stepped) ran)

theorem Reachable.eq_of_node (reachable : c.Reachable) (done : c.run ops = .ok (after, early))
    {e stands : Entry GlobalRef} (member : e ∈ c.globals.entries)
    (there : stands ∈ after.globals.entries) (same : stands.id = e.id) : stands = e := by
  have wf := reachable.wellFormed.globals
  have issued : stands.id.index < c.globals.nextId.index := same ▸ wf.fresh e member
  exact wf.eq_of_id ((reachable.run_precedes done).old stands there issued) member same

theorem Reachable.spent (reachable : c.Reachable) (done : c.run ops = .ok (after, early))
    {node : NodeId} (known : c.globals.hasNode node = true)
    (gone : after.globals.hasNode node = false) : after.globals.Spent node := by
  obtain ⟨e, member, rfl⟩ := IntervalMap.hasNode_iff.1 known
  have issued := reachable.wellFormed.globals.fresh e member
  refine ⟨Nat.lt_of_lt_of_le issued (reachable.run_precedes done).counted, fun other stands same => ?_⟩
  exact absurd (IntervalMap.hasNode_iff.2 ⟨other, stands, same⟩) (Bool.eq_false_iff.1 gone)

/-- A map gives each number out once and knows it until its entry is taken out. So in the life of a checker a
number stands for one global block at most, and once that is gone for none, whatever is loaded later. -/
theorem nodes_once :
    (∀ {α : Type} (ops : List (IntervalMap.Operation α)), IntervalMap.Numbered ops) ∧
    ∀ {c middle last : Checker} {ops later : List (Environment × Operation)}
      {early late : List Reply}, c.Reachable → c.run ops = .ok (middle, early) →
      middle.run later = .ok (last, late) →
      (∀ e ∈ c.globals.entries, ∀ stands ∈ middle.globals.entries,
        stands.id = e.id → stands = e) ∧
      ∀ node, c.globals.hasNode node = true → middle.globals.hasNode node = false →
        last.globals.hasNode node = false := by
  refine ⟨IntervalMap.run_numbered, ?_⟩
  intro c middle last ops later early late reachable first second
  refine ⟨fun e member stands there => reachable.eq_of_node first member there, ?_⟩
  intro node known gone
  have spent := (reachable.spent first known gone).later ((reachable.run first).run_precedes second)
  refine Bool.eq_false_iff.2 fun again => ?_
  obtain ⟨e, stands, named⟩ := IntervalMap.hasNode_iff.1 again
  exact spent.2 e stands named

def sampleUnmapped : Checker :=
  sample.reached [(sampleEnvironment, .unmap ⟨0x5000, 64⟩)]

def sampleReloaded : Checker :=
  sampleUnmapped.reached [(sampleEnvironment, .loadGlobals 1)]

/-- A table that is unmapped and loaded again where it was has another number. -/
theorem nodes_once_sample :
    sample.globals.hasNode ⟨0⟩ = true ∧ sampleUnmapped.globals.hasNode ⟨0⟩ = false ∧
      sampleReloaded.globals.entries.map (·.interval) =
        sample.globals.entries.map (·.interval) ∧
      sampleReloaded.globals.hasNode ⟨0⟩ = false := by
  have known : sample.globals.hasNode ⟨0⟩ = true := by decide +kernel
  have gone : sampleUnmapped.globals.hasNode ⟨0⟩ = false := by decide +kernel
  have again : sampleReloaded.globals.entries.map (·.interval) =
      sample.globals.entries.map (·.interval) := by decide +kernel
  obtain ⟨early, unmapped⟩ := run_reached sample
    [(sampleEnvironment, .unmap ⟨0x5000, 64⟩)] (by decide +kernel)
  obtain ⟨late, loaded⟩ := run_reached sampleUnmapped
    [(sampleEnvironment, .loadGlobals 1)] (by decide +kernel)
  have once := (nodes_once.2 reachable_sample unmapped loaded).2
  exact ⟨known, gone, again, once ⟨0⟩ known gone⟩

end Overrun.Checker
