import Overrun.Proofs.Checker.Trust
import Overrun.Proofs.Checker.Weaving

/-! Instrumenting a block only adds to it, and the guest does not notice what is added: it writes neither
the guest state nor memory, and no temporary of the block. -/

namespace Overrun

open Guest

/-- Whether the guest state may be different after a statement. To leave a block sets the instruction
pointer. -/
def Guest.Stmt.writesState : Stmt → Bool
  | put .. | exit .. => true
  | nop | mark .. | assign .. | store .. | swap _ | call _ | fence => false

def Guest.Stmt.writesMemory : Stmt → Bool
  | store .. | swap _ => true
  | call c => c.effect.any (·.kind != .read)
  | nop | mark .. | put .. | assign .. | fence | exit .. => false

section Adds

variable {hooks : Hooks} {first : Nat} {temps types others : List Ty} {stmt : Stmt}
  {code more : List Stmt} {callee : Callee} {args : Atom → Atom → List Atom}

theorem HookStmt.writesState (fine : HookStmt hooks first temps stmt) :
    stmt.writesState = false := by
  cases fine <;> rfl

theorem HookStmt.writesMemory (fine : HookStmt hooks first temps stmt) :
    stmt.writesMemory = false := by
  cases fine <;> rfl

/-- Whether code is of the kind that the hooks need, where there are `temps`, and assigns just the new
temporaries that are added with it, each once. -/
structure Adds (hooks : Hooks) (temps : List Ty) (code : List Stmt) (types : List Ty) : Prop where
  fine : ∀ stmt ∈ code, HookStmt hooks temps.length (temps ++ types) stmt
  fresh : assigned code = freshTemps temps.length types.length

theorem adds_nil (hooks : Hooks) (temps : List Ty) : Adds hooks temps [] [] :=
  ⟨fun _ absurd => by contradiction, rfl⟩

theorem Adds.append (early : Adds hooks temps code types)
    (late : Adds hooks (temps ++ types) more others) :
    Adds hooks temps (code ++ more) (types ++ others) where
  fine := by
    rw [← List.append_assoc]
    intro stmt member
    rcases List.mem_append.1 member with old | new
    · exact (early.fine stmt old).mono others (Nat.le_refl _)
    · have lower : temps.length ≤ (temps ++ types).length := by
        rw [List.length_append]
        exact Nat.le_add_right _ _
      have kept := (late.fine stmt new).mono [] lower
      rw [List.append_nil] at kept
      exact kept
  fresh := by
    rw [assigned_append, early.fresh, late.fresh, List.length_append, List.length_append,
      freshTemps_append]

theorem HookCode.adds {layout : Layout} (made : HookCode layout temps callee args code types)
    (known : callee = hooks.access ∨ callee = hooks.call) : Adds hooks temps code types :=
  ⟨made.stmts known, made.assigned⟩

theorem Adds.count_assigned (adds : Adds hooks temps code types) (t : Temp) :
    (assigned code).count t =
      if temps.length ≤ t.index ∧ t.index < temps.length + types.length then 1 else 0 := by
  rw [adds.fresh, (nodup_freshTemps _ _).count]
  simp only [mem_freshTemps]

end Adds

namespace Checker

variable {c : Checker} {env : Environment} {source out : SuperBlock} {layout : Layout}
  {hooks : Hooks}

theorem Inserts.adds {earlier code : List Stmt} {temps types : List Ty} {stmt : Stmt}
    (inserts : Inserts env source layout hooks.access c earlier temps stmt code types) :
    Adds hooks temps code types := by
  cases inserts with
  | nothing => exact adds_nil hooks temps
  | hook _ _ _ _ _ made => exact made.adds (.inl rfl)

theorem Closes.adds {temps types : List Ty} {code : List Stmt}
    (closes : Closes source layout hooks.call c temps code types) : Adds hooks temps code types := by
  cases closes with
  | nothing => exact adds_nil hooks temps
  | hook _ _ _ made => exact made.adds (.inr rfl)

theorem Weaves.adds {steps : List Woven} {types : List Ty}
    (weaves : Weaves env source layout hooks.access c steps types) :
    Adds hooks source.temps (steps.flatMap (·.inserted)) types := by
  induction weaves with
  | nothing => exact adds_nil hooks source.temps
  | step before inserts ih =>
    rw [List.flatMap_append, List.flatMap_singleton]
    exact ih.append inserts.adds

/-- Whether `out` is a block with statements inserted that do not disturb the guest. -/
structure Undisturbed (hooks : Hooks) (source out : SuperBlock) (w : Weave) : Prop where
  whole : w.whole = out.stmts
  erased : { out with temps := out.temps.take source.temps.length, stmts := w.original } = source
  inserted : ∀ stmt ∈ w.inserted, HookStmt hooks source.temps.length out.temps stmt
  once : ∀ t : Temp, (assigned w.inserted).count t =
    if source.temps.length ≤ t.index ∧ t.index < out.temps.length then 1 else 0
  state : ∀ stmt ∈ w.inserted, stmt.writesState = false
  memory : ∀ stmt ∈ w.inserted, stmt.writesMemory = false

/-- Instrumentation inserts statements in the block, and the guest does not notice them. -/
theorem instrument_undisturbed {o : Outcome (Except InstrumentError SuperBlock)}
    (done : c.instrument env source layout hooks = .ok o) (made : o.value = .ok out) :
    ∃ w : Weave, Undisturbed hooks source out w := by
  obtain ⟨w, types, more, original, weaves, closes, rfl⟩ := instrument_weaves done made
  have adds : Adds hooks source.temps w.inserted (types ++ more) := weaves.adds.append closes.adds
  have fine := adds.fine
  rw [← List.append_assoc] at fine
  refine ⟨w, rfl, ?_, fine, fun t => ?_, fun stmt member => (fine stmt member).writesState,
    fun stmt member => (fine stmt member).writesMemory⟩
  · dsimp only
    rw [original, List.append_assoc, List.take_left]
  · dsimp only
    rw [adds.count_assigned, List.append_assoc, @List.length_append _ source.temps]

def instrumented? (env : Environment) (c : Checker) (source : SuperBlock) (layout : Layout)
    (hooks : Hooks) : Option SuperBlock :=
  (c.instrument env source layout hooks).toOption.bind fun o => o.value.toOption

theorem instrumented?_eq_some (found : c.instrumented? env source layout hooks = some out) :
    ∃ o, c.instrument env source layout hooks = .ok o ∧ o.value = .ok out := by
  obtain ⟨o, done, made⟩ := toOption_bind_eq_some.1 found
  exact ⟨o, done, toOption_eq_some.1 made⟩

/-- Two instructions touch memory with narrow addresses, and a call follows. -/
def narrowBlock : SuperBlock where
  temps := [.i32]
  stmts := [
    .mark 0x2000 4 0,
    .assign ⟨0⟩ (.load .little .i32 (.const (.i32 0x7fe0))),
    .mark 0x2004 2 0,
    .store .little (.temp ⟨0⟩) (.const (.i8 1))]
  next := .const (.i32 0x3000)
  jump := .call
  ipOffset := 68

def narrowStart : Checker :=
  initial .default ⟨.x86, .linux, .gnu⟩

def narrowOut : SuperBlock :=
  (narrowStart.instrumented? (scopeEnvironment []) narrowBlock (.of .x86) sampleHooks).getD
    (.empty 68)

theorem instrumented?_narrowBlock :
    narrowStart.instrumented? (scopeEnvironment []) narrowBlock (.of .x86) sampleHooks =
      some narrowOut := by
  decide +kernel

theorem instrument_undisturbed_narrowBlock :
    (∃ w : Weave, Undisturbed sampleHooks narrowBlock narrowOut w) ∧
      narrowOut.stmts.length = narrowBlock.stmts.length + 16 := by
  obtain ⟨o, done, made⟩ := instrumented?_eq_some instrumented?_narrowBlock
  exact ⟨instrument_undisturbed done made, by decide +kernel⟩

end Checker

end Overrun
