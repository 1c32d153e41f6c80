import Overrun.Checker.Globals
import Overrun.Proofs.Checker.Consulting

/-! The catalog, the known vectors, the globals and the warnings still to be given belong to no thread.
Looking up vectors, instrumenting code and registering globals read nothing else of a checker but a
few settings, and change nothing else. So they do the same in every checker that shares all that. -/

namespace Overrun

namespace Checker

/-- `d` with all that belongs to no thread as it is in `c`. -/
def sharing (d c : Checker) : Checker :=
  { d with
    catalog := c.catalog
    vectors := c.vectors
    globals := c.globals
    overlapWarnings := c.overlapWarnings }

/-- Whether two checkers look up vectors and instrument code by the same settings. -/
structure SameRules (c d : Checker) : Prop where
  target : d.target = c.target
  arraysOnly : d.config.arraysOnly = c.config.arraysOnly
  suppressEpilogues : d.config.suppressEpilogues = c.config.suppressEpilogues

theorem SameRules.consulted {c after d : Checker} (same : SameRules c d)
    (consulted : Consulted c after) : SameRules after d := by
  unfold Consulted at consulted
  rw [consulted]
  exact ⟨same.target, same.arraysOnly, same.suppressEpilogues⟩

theorem SameRules.sharing_target {c d : Checker} (same : SameRules c d) (other : Checker) :
    (d.sharing other).target = c.target :=
  same.target

end Checker

def Outcome.within {α : Type} (d : Checker) (o : Outcome α) : Outcome α :=
  { o with checker := d.sharing o.checker }

namespace Checker

variable {c d : Checker} {env : Environment}

theorem vectorAt_sharing (env : Environment) (same : SameRules c d) (instruction : UInt64) :
    (d.sharing c).vectorAt env instruction = (c.vectorAt env instruction).within d := by
  unfold vectorAt
  dsimp only [sharing]
  cases c.vectors.lookup instruction with
  | some v => rfl
  | none =>
    rw [same.arraysOnly]
    rfl

namespace Copying

def within (d : Checker) (p : Copying) : Copying :=
  { p with checker := d.sharing p.checker }

def stepWithin (d : Checker) (r : Except InstrumentError Unit × Copying) :
    Except InstrumentError Unit × Copying :=
  (r.1, r.2.within d)

variable {source : Guest.SuperBlock} {hook : Guest.Callee} {p : Copying}

theorem enter_within (same : SameRules p.checker d) (address : UInt64) :
    (p.within d).enter env address = (p.enter env address).within d := by
  have later := same.consulted (vectorAt_consulted env p.checker address)
  have suppressed : (d.sharing (p.checker.vectorAt env address).checker).isSuppressed env
      p.builder.layout address =
        (p.checker.vectorAt env address).checker.isSuppressed env p.builder.layout address := by
    unfold isSuppressed
    dsimp only [sharing]
    rw [later.suppressEpilogues]
  unfold enter within
  dsimp only
  rw [vectorAt_sharing env same]
  dsimp only [Outcome.within]
  rw [suppressed]

def recast (f : Checker → Checker) (g : List Event → List Event) (p : Copying) : Copying :=
  { p with checker := f p.checker, events := g p.events }

theorem meet_recast (f : Checker → Checker) (g : List Event → List Event) (p : Copying)
    (index : Nat) (ref : MemoryRef) :
    (p.recast f g).meet hook index ref = (p.meet hook index ref).map (Prod.map id (recast f g)) := by
  unfold meet
  obtain ⟨checker, builder, current, events⟩ := p
  cases current with
  | none => rfl
  | some current =>
    dsimp only [recast]
    by_cases referenced : current.referenced
    · simp only [if_pos referenced]
      rfl
    · by_cases suppressed : current.suppressed
      · simp only [if_neg referenced, if_pos suppressed]
        rfl
      · simp only [if_neg referenced, if_neg suppressed]
        apply bind_eq_map_bind
        intro inserted done
        rfl

theorem meet_within (index : Nat) (ref : MemoryRef) :
    (p.within d).meet hook index ref = (p.meet hook index ref).map (stepWithin d) :=
  meet_recast d.sharing id p index ref

theorem copy_within (same : SameRules p.checker d) (index : Nat) (stmt : Guest.Stmt) :
    (p.within d).copy env source hook index stmt =
      (p.copy env source hook index stmt).map (stepWithin d) := by
  unfold copy
  cases Guest.SuperBlock.mark? stmt with
  | some mark =>
    by_cases zero : mark.address = 0
    · simp only [if_pos zero]
      rfl
    · simp only [if_neg zero]
      rw [enter_within same]
      rfl
  | none =>
    apply bind_eq_map_bind
    intro reference found
    cases reference with
    | none => rfl
    | some ref =>
      dsimp only
      rw [meet_within]
      cases p.meet hook index ref <;> rfl

theorem copyAll_within (same : SameRules p.checker d) (index : Nat) (stmts : List Guest.Stmt) :
    (p.within d).copyAll env source hook index stmts =
      (p.copyAll env source hook index stmts).map (stepWithin d) := by
  induction stmts generalizing p index with
  | nil => rfl
  | cons stmt rest ih =>
    unfold copyAll
    rw [copy_within same]
    cases copied : p.copy env source hook index stmt with
    | error fault => rfl
    | ok step =>
      obtain ⟨result, q⟩ := step
      cases result with
      | error e => rfl
      | ok => exact ih (same.consulted (copy_lookedUp copied).consulted) (index + 1)

theorem close_within (same : SameRules p.checker d) :
    (p.within d).close env source hook = (p.close env source hook).map (stepWithin d) := by
  unfold close
  by_cases calls : source.endsInCall
  · simp only [if_pos calls]
    cases source.lastMark? with
    | none => rfl
    | some mark =>
      have later := same.consulted (vectorAt_consulted env p.checker mark.address)
      dsimp only [within]
      rw [vectorAt_sharing env same]
      dsimp only [Outcome.within]
      rw [later.sharing_target]
      apply bind_eq_map_bind
      intro inserted done
      rfl
  · simp only [if_neg calls]
    rfl

end Copying

theorem instrument_sharing (env : Environment) (same : SameRules c d)
    (source : Guest.SuperBlock) (layout : Guest.Layout) (hooks : Hooks) :
    (d.sharing c).instrument env source layout hooks =
      (c.instrument env source layout hooks).map (Outcome.within d) := by
  unfold instrument
  rw [same.sharing_target]
  by_cases native : layout.architecture = c.target.architecture
  · simp only [if_pos native]
    show (Copying.copyAll env source hooks.access
      (Copying.within d ⟨c, .ofTemplate source layout, none, []⟩) 0 source.stmts >>= _) = _
    rw [Copying.copyAll_within same]
    cases copying : Copying.copyAll env source hooks.access ⟨c, .ofTemplate source layout, none, []⟩ 0
        source.stmts with
    | error fault => rfl
    | ok copied =>
      obtain ⟨result, p⟩ := copied
      cases result with
      | error e => rfl
      | ok =>
        show ((p.within d).close env source hooks.call >>= _) = _
        rw [Copying.close_within (same.consulted (Copying.copyAll_lookedUp copying).consulted)]
        show _ = (p.close env source hooks.call >>= _ : Except Guest.Fault _).map _
        cases p.close env source hooks.call with
        | error fault => rfl
        | ok closed =>
          obtain ⟨closed, q⟩ := closed
          cases closed <;> rfl
  · simp only [if_neg native]
    rfl

def Loaded.within (d : Checker) (r : Loaded) : Loaded :=
  { r with checker := d.sharing r.checker }

theorem registerGlobals_sharing (blocks : List GlobalBlock) :
    (d.sharing c).registerGlobals blocks = (c.registerGlobals blocks).within d := by
  induction blocks generalizing c with
  | nil => rfl
  | cons block rest ih =>
    unfold registerGlobals
    cases Interval.ofSize? block.address block.size with
    | none => exact ih
    | some interval =>
      dsimp only [sharing]
      cases c.globals.insert interval (c.catalog.internGlobal block).1 with
      | ok inserted =>
        have later := @ih { c with
          catalog := (c.catalog.internGlobal block).2, globals := inserted.2 }
        exact congrArg (fun r : Loaded => { r with added := r.added + 1 }) later
      | error overlap =>
        dsimp only
        by_cases spent : c.overlapWarnings = 0
        · rw [if_pos spent, if_pos spent]
          exact @ih { c with catalog := (c.catalog.internGlobal block).2 }
        · rw [if_neg spent, if_neg spent]
          have later := @ih { c with
            catalog := (c.catalog.internGlobal block).2
            overlapWarnings := c.overlapWarnings - 1 }
          exact congrArg (fun r : Loaded =>
            { r with events := .globalOverlaps block.name overlap :: r.events }) later

theorem registerGlobals_checker (c : Checker) (blocks : List GlobalBlock) :
    (c.registerGlobals blocks).checker = c.sharing (c.registerGlobals blocks).checker :=
  congrArg Loaded.checker (@registerGlobals_sharing c c blocks)

theorem registerGlobals_threads (c : Checker) (blocks : List GlobalBlock) :
    (c.registerGlobals blocks).checker.threads = c.threads := by
  rw [registerGlobals_checker]
  rfl

theorem Consulted.sharing {after : Checker} (consulted : Consulted c after) :
    after = c.sharing after := by
  unfold Consulted at consulted
  rw [consulted]
  rfl

/-- Whether a change of checkers leaves alone all that is shared and the settings that matter to it. -/
structure Recasts (φ : Checker → Checker) : Prop where
  rules : ∀ c, SameRules c (φ c)
  sharing : ∀ c d, (φ c).sharing d = φ (c.sharing d)

end Checker

def Outcome.recast {α : Type} (φ : Checker → Checker) (o : Outcome α) : Outcome α :=
  { o with checker := φ o.checker }

namespace Checker.Recasts

variable {φ : Checker → Checker} {c after : Checker} {env : Environment}

theorem sharing_self (recasts : Recasts φ) (c : Checker) : (φ c).sharing c = φ c :=
  recasts.sharing c c

theorem sharing_after (recasts : Recasts φ) (kept : after = c.sharing after) :
    (φ c).sharing after = φ after :=
  (recasts.sharing c after).trans (congrArg φ kept.symm)

theorem vectorAt (recasts : Recasts φ) (c : Checker) (instruction : UInt64) :
    (φ c).vectorAt env instruction = (c.vectorAt env instruction).recast φ := by
  have shared := vectorAt_sharing env (recasts.rules c) instruction
  rw [recasts.sharing_self] at shared
  rw [shared]
  unfold Outcome.within Outcome.recast
  rw [recasts.sharing_after (vectorAt_consulted env c instruction).sharing]

theorem instrument (recasts : Recasts φ) (c : Checker) (source : Guest.SuperBlock)
    (layout : Guest.Layout) (hooks : Hooks) :
    (φ c).instrument env source layout hooks =
      (c.instrument env source layout hooks).map (Outcome.recast φ) := by
  have shared := instrument_sharing env (recasts.rules c) source layout hooks
  rw [recasts.sharing_self] at shared
  rw [shared]
  cases instrumented : c.instrument env source layout hooks with
  | error fault => rfl
  | ok o =>
    have kept := (instrument_lookedUp instrumented).consulted.sharing
    show Except.ok (o.within (φ c)) = .ok (o.recast φ)
    unfold Outcome.within Outcome.recast
    rw [recasts.sharing_after kept]

theorem registerGlobals (recasts : Recasts φ) (c : Checker) (blocks : List GlobalBlock) :
    (φ c).registerGlobals blocks =
      { c.registerGlobals blocks with checker := φ (c.registerGlobals blocks).checker } := by
  have shared := @registerGlobals_sharing c (φ c) blocks
  rw [recasts.sharing_self] at shared
  rw [shared]
  unfold Loaded.within
  rw [recasts.sharing_after (registerGlobals_checker c blocks)]

end Checker.Recasts

end Overrun
