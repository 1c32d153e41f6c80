import Overrun.Proofs.Checker.Conservation
import Overrun.Proofs.Checker.Registering

/-! What loading global blocks comes to. Each that can be taken in is registered and counted, and loading
the same blocks again finds an address of each of them taken. -/

namespace Overrun.Checker

variable {c after : Checker} {b : GlobalBlock} {blocks : List GlobalBlock}

theorem afterLoad_known
    (interned : ∀ b ∈ blocks, b.Sound → (c.catalog.internGlobal b).2 = c.catalog)
    (covered : ∀ b ∈ blocks, b.Sound → ∃ e ∈ c.globals.entries, e.interval.span.Meets b.span) :
    ∃ warnings, c.afterLoad blocks = { c with overlapWarnings := warnings } := by
  obtain ⟨warnings, same⟩ := registerGlobals_known interned covered
  have size := c.registerGlobals_size blocks
  rw [same] at size
  have none : (c.registerGlobals blocks).added = 0 := by
    dsimp only at size
    omega
  refine ⟨warnings, ?_⟩
  unfold afterLoad
  dsimp only
  rw [same, none]
  rfl

/-- What loading `blocks` comes to. Those that are admitted are registered and counted, and nothing that
was there is touched. -/
structure Loads (blocks : List GlobalBlock) (c after : Checker) : Prop
    extends Admits blocks c after where
  fresh : ∀ e ∈ c.globals.entries, e.id.index < c.globals.nextId.index
  covered : ∀ b ∈ blocks, b.Sound → ∃ e ∈ after.globals.entries, e.interval.span.Meets b.span
  statistics : after.statistics =
    { c.statistics with
      globalsAdded := c.statistics.globalsAdded
        + (GlobalBlock.admitted c.globals.spans blocks).length }
  rest : after =
    { c with
      catalog := after.catalog
      globals := after.globals
      statistics := after.statistics
      overlapWarnings := after.overlapWarnings }

theorem WellFormed.afterLoad_loads (wf : c.WellFormed) (blocks : List GlobalBlock) :
    c.Loads blocks (c.afterLoad blocks) := by
  have admits := c.registerGlobals_admits blocks
  have size := (c.registerGlobals_size blocks).symm.trans admits.added
  refine ⟨⟨admits.catalog, admits.interned, admits.counted, admits.entries⟩, wf.globals.fresh,
    fun b member sound => admits.covered sound member, ?_, ?_⟩
  · rw [afterLoad_statistics, Nat.add_left_cancel size]
  · have kept := c.registerGlobals_rest blocks
    unfold Checker.afterLoad
    dsimp only
    rw [kept]

/-- Loading global blocks never faults. It registers each that it admits, in the order they come in, and
loading the same blocks again changes nothing but how many warnings are left. -/
theorem Reachable.load_greedy (reachable : c.Reachable) (env : Environment) (handle : UInt64) :
    ∃ o, c.loadGlobals env handle = .ok o ∧
      c.Loads (env.globalBlocksOf handle c.config.arraysOnly) o.checker ∧
      ∀ (later : Environment) (again : UInt64),
        later.globalBlocksOf again c.config.arraysOnly =
            env.globalBlocksOf handle c.config.arraysOnly →
          ∃ p warnings, o.checker.loadGlobals later again = .ok p ∧
            p.checker = { o.checker with overlapWarnings := warnings } := by
  have wf := reachable.wellFormed
  obtain ⟨events, done⟩ := wf.loadGlobals_ok env handle
  have loads := wf.afterLoad_loads (env.globalBlocksOf handle c.config.arraysOnly)
  refine ⟨_, done, loads, fun later again same => ?_⟩
  obtain ⟨events, reloaded⟩ := (wf.loadGlobals done).loadGlobals_ok later again
  obtain ⟨warnings, unchanged⟩ := afterLoad_known loads.interned loads.covered
  refine ⟨_, warnings, reloaded, ?_⟩
  have config := congrArg Checker.config loads.rest
  have blocks : later.globalBlocksOf again
      (c.afterLoad (env.globalBlocksOf handle c.config.arraysOnly)).config.arraysOnly =
        env.globalBlocksOf handle c.config.arraysOnly := by
    rw [config]
    exact same
  dsimp only
  rw [blocks]
  exact unchanged

def sampleObject : List GlobalBlock := [
  ⟨0x5020, 16, true, "inner", "rings.so"⟩,
  ⟨0x6000, 0, true, "nothing", "rings.so"⟩,
  ⟨0x6000, 32, true, "ring", "rings.so"⟩,
  ⟨0x601f, 8, true, "crossing", "rings.so"⟩,
  ⟨0xfffffffffffffff8, 16, true, "wrapping", "rings.so"⟩,
  ⟨0xfffffffffffffff8, 8, true, "last", "rings.so"⟩]

theorem load_greedy_sample :
    ∃ o, sample.loadGlobals (Recorded.environment
        { Recorded.empty with globalBlocks := [(7, sampleObject)] }) 7 = .ok o ∧
      sample.Loads sampleObject o.checker ∧
      ∃ p warnings, o.checker.loadGlobals (Recorded.environment
          { Recorded.empty with globalBlocks := [(7, sampleObject), (8, sampleObject)] }) 8 = .ok p ∧
        p.checker = { o.checker with overlapWarnings := warnings } := by
  obtain ⟨o, done, loads, again⟩ := reachable_sample.load_greedy
    (Recorded.environment { Recorded.empty with globalBlocks := [(7, sampleObject)] }) 7
  exact ⟨o, done, loads, again _ 8 (by decide +kernel)⟩

end Overrun.Checker
