import Overrun.Proofs.Checker.Harmless

/-! Instrumented code still assigns each temporary once, at its own type, and before it is used. A block
has to have all the temporaries that it assigns, since those it has not are taken for new ones. -/

namespace Overrun

open Guest

theorem HookStmt.declared {hooks : Hooks} {first : Nat} {temps : List Ty} {stmt : Stmt}
    (fine : HookStmt hooks first temps stmt) {t : Temp} (used : .temp t ∈ stmt.operands) :
    t.index < temps.length := by
  have inside : ∀ {a : Atom} {ty : Ty}, a.ty? temps = some ty → .temp t = a →
      t.index < temps.length := by
    rintro a ty typed rfl
    exact (List.getElem?_eq_some_iff.1 typed).1
  cases fine with
  | read => contradiction
  | extend _ _ _ narrow => exact inside narrow (List.mem_singleton.1 used)
  | @call callee words _ _ typed =>
    have passed : Atom.temp t ∈ words := by
      rw [← List.append_nil words]
      exact used
    exact inside (typed _ passed) rfl

theorem HookStmt.typed {hooks : Hooks} {first : Nat} {temps : List Ty} {t : Temp} {e : Expr}
    (fine : HookStmt hooks first temps (.assign t e)) :
    ∃ ty, e.ty? temps = some ty ∧ temps[t.index]? = some ty := by
  cases fine with
  | read offset new typed => exact ⟨_, rfl, typed⟩
  | @extend _ op a ty new typed zeros narrow =>
    have wide : op.ty = .i64 := by
      cases op <;> first | rfl | contradiction
    exact ⟨.i64, congrArg some wide, typed⟩

section Adds

variable {hooks : Hooks} {source : SuperBlock} {inserted stmts : List Stmt} {types : List Ty}

theorem Adds.perm_assigned (adds : Adds hooks source.temps inserted types)
    (perm : stmts.Perm (source.stmts ++ inserted)) :
    (assigned stmts).Perm
      (assigned source.stmts ++ freshTemps source.temps.length types.length) := by
  have all := perm.filterMap Stmt.assigned?
  rw [← adds.fresh, ← assigned_append]
  exact all

theorem Adds.ownTemps (adds : Adds hooks source.temps inserted types)
    (perm : stmts.Perm (source.stmts ++ inserted)) (own : source.OwnTemps) :
    { source with temps := source.temps ++ types, stmts := stmts }.OwnTemps := by
  intro t member
  show t.index < (source.temps ++ types).length
  rw [List.length_append]
  rcases List.mem_append.1 ((adds.perm_assigned perm).mem_iff.1 member) with old | new
  · exact Nat.lt_add_right _ (own t old)
  · exact (mem_freshTemps.1 new).2

/-- New temporaries are assigned once each, since a block that has the temporaries it assigns does not
assign them. -/
theorem Adds.singleAssignment (adds : Adds hooks source.temps inserted types)
    (perm : stmts.Perm (source.stmts ++ inserted)) (fine : source.SingleAssignment)
    (own : source.OwnTemps) (first : AssignedFirst [] stmts) :
    { source with temps := source.temps ++ types, stmts := stmts }.SingleAssignment where
  declared stmt member t used := by
    rcases List.mem_append.1 (perm.mem_iff.1 member) with old | new
    · show t.index < (source.temps ++ types).length
      rw [List.length_append]
      exact Nat.lt_add_right _ (fine.declared stmt old t used)
    · exact (adds.fine stmt new).declared used
  first := first
  next t same := by
    obtain ⟨inside, before⟩ := fine.next t same
    refine ⟨?_, (adds.perm_assigned perm).mem_iff.2 (List.mem_append_left _ before)⟩
    show t.index < (source.temps ++ types).length
    rw [List.length_append]
    exact Nat.lt_add_right _ inside
  once := by
    rw [(adds.perm_assigned perm).nodup_iff, List.nodup_append]
    refine ⟨fine.once, nodup_freshTemps _ _, fun t old new fresh same => ?_⟩
    subst same
    exact Nat.not_lt_of_le (mem_freshTemps.1 fresh).1 (own t old)
  typed t e member := by
    simp only [SuperBlock.exprTy_eq_ok_iff, SuperBlock.tempTy_eq_ok_iff]
    rcases List.mem_append.1 (perm.mem_iff.1 member) with old | new
    · obtain ⟨ty, expr, temp⟩ := fine.typed t e old
      rw [SuperBlock.exprTy_eq_ok_iff] at expr
      rw [SuperBlock.tempTy_eq_ok_iff] at temp
      exact ⟨ty, Expr.ty?_append expr types, Atom.ty?_append (a := .temp t) temp types⟩
    · exact (adds.fine _ new).typed

end Adds

theorem assigned_subset_code (steps : List Woven) :
    assigned (steps.map (·.stmt)) ⊆ assigned (steps.flatMap Woven.code) := by
  intro t member
  obtain ⟨stmt, there, assigns⟩ := List.mem_filterMap.1 member
  have woven := (perm_flatMap_code steps).mem_iff.2 (List.mem_append_left _ there)
  exact List.mem_filterMap.2 ⟨stmt, woven, assigns⟩

namespace Checker

variable {c : Checker} {env : Environment} {source out : SuperBlock} {layout : Layout}
  {hook : Callee} {hooks : Hooks}

theorem Inserts.assignedFirst {earlier code : List Stmt} {temps types : List Ty} {stmt : Stmt}
    (inserts : Inserts env source layout hook c earlier temps stmt code types) {known : List Temp}
    (used : ∀ t, .temp t ∈ stmt.operands → t ∈ known) : AssignedFirst known code := by
  cases inserts with
  | nothing => trivial
  | @hook address ref vector _ _ first there watched touches lookedUp made =>
    refine made.assignedFirst fun t sp fp member => ?_
    simp only [accessArgs, vectorArg, List.mem_cons, List.not_mem_nil, reduceCtorEq, or_false]
      at member
    rcases member with same | pointer | pointer
    · exact .inr (.inr (used t (same ▸ touches.addr_mem)))
    · exact .inl pointer
    · exact .inr (.inl pointer)

theorem Closes.assignedFirst {code : List Stmt} {temps types : List Ty}
    (closes : Closes source layout hook c temps code types) (known : List Temp) :
    AssignedFirst known code := by
  cases closes with
  | nothing => trivial
  | hook ends final lookedUp made =>
    refine made.assignedFirst fun t sp fp member => ?_
    simp only [callArgs, vectorArg, List.mem_cons, List.not_mem_nil, reduceCtorEq, or_false]
      at member
    exact member.imp_right .inl

theorem Weaves.assignedFirst {steps : List Woven} {types : List Ty}
    (weaves : Weaves env source layout hook c steps types)
    (fine : AssignedFirst [] (steps.map (·.stmt))) :
    AssignedFirst [] (steps.flatMap Woven.code) := by
  induction weaves with
  | nothing => trivial
  | @step steps types more code stmt before inserts ih =>
    rw [List.map_append, assignedFirst_append] at fine
    obtain ⟨early, used, -⟩ := fine
    have there : ∀ t, .temp t ∈ stmt.operands → t ∈ assigned (steps.flatMap Woven.code) :=
      fun t member => assigned_subset_code steps (used t member)
    rw [List.flatMap_append, List.flatMap_singleton, assignedFirst_append, List.nil_append]
    refine ⟨ih early, assignedFirst_append.2 ⟨inserts.assignedFirst there, ?_, trivial⟩⟩
    exact fun t member => List.mem_append_left _ (there t member)

/-- Whether the helpers that are called in some code get as many host words as they can take, and values
are only extended from the type that the operation names. -/
structure Conforming (block : SuperBlock) (code : List Stmt) : Prop where
  few : ∀ call, .call call ∈ code → call.args.length ≤ maxHelperArgs
  words : ∀ call, .call call ∈ code → ∀ a ∈ call.args, block.atomTy a = .ok .i64
  narrow : ∀ t op a, .assign t (.unop op a) ∈ code →
    ∃ ty, op.zeroExtended? = some ty ∧ block.atomTy a = .ok ty

theorem conforming_of_hookStmt {first : Nat} {code : List Stmt}
    (fine : ∀ stmt ∈ code, HookStmt hooks first out.temps stmt) : Conforming out code where
  few call member := by
    cases fine _ member with
    | call _ few _ => exact few
  words call member a passed := by
    cases fine _ member with
    | call _ _ typed => exact SuperBlock.atomTy_eq_ok_iff.2 (typed a passed)
  narrow t op a member := by
    cases fine _ member with
    | extend _ _ zeros narrow => exact ⟨_, zeros, SuperBlock.atomTy_eq_ok_iff.2 narrow⟩

/-- A block that assigns its temporaries once, and no others, is still such a block with the calls of the
hooks. -/
theorem instrument_singleAssignment {o : Outcome (Except InstrumentError SuperBlock)}
    (fine : source.SingleAssignment) (own : source.OwnTemps)
    (done : c.instrument env source layout hooks = .ok o) (made : o.value = .ok out) :
    out.SingleAssignment ∧ out.OwnTemps ∧
      ∃ w : Weave, w.whole = out.stmts ∧ w.original = source.stmts ∧ Conforming out w.inserted := by
  obtain ⟨w, types, more, original, weaves, closes, rfl⟩ := instrument_weaves done made
  have adds : Adds hooks source.temps w.inserted (types ++ more) := weaves.adds.append closes.adds
  have perm := w.perm_whole
  have fineWeave : AssignedFirst [] w.original := original ▸ fine.first
  have first : AssignedFirst [] w.whole :=
    assignedFirst_append.2 ⟨weaves.assignedFirst fineWeave, closes.assignedFirst _⟩
  rw [original] at perm
  rw [List.append_assoc]
  exact ⟨adds.singleAssignment perm fine own first, adds.ownTemps perm own, w, rfl, original,
    conforming_of_hookStmt adds.fine⟩

theorem singleAssignment_narrowBlock : narrowBlock.SingleAssignment where
  declared := by simp [narrowBlock, Stmt.operands, Expr.operands]
  first := by simp [narrowBlock, AssignedFirst, assigned, Stmt.operands, Expr.operands,
    Stmt.assigned?]
  next t absurd := by contradiction
  once := by decide
  typed := by simp [narrowBlock, SuperBlock.exprTy, SuperBlock.tempTy]

theorem instrument_singleAssignment_narrowBlock : narrowOut.SingleAssignment := by
  obtain ⟨o, done, made⟩ := instrumented?_eq_some instrumented?_narrowBlock
  have own : narrowBlock.OwnTemps := by decide
  exact (instrument_singleAssignment singleAssignment_narrowBlock own done made).1

/-- A swap that reads into a temporary the block does not have. -/
def strayBlock : SuperBlock where
  temps := []
  stmts := [
    .mark 0x1000 4 0,
    .swap ⟨⟨0⟩, .little, .const (.i64 0x2000), .const (.i64 0), .const (.i64 1)⟩]
  next := .const (.i64 0x1004)
  jump := .boring
  ipOffset := 184

def strayOut : SuperBlock :=
  (sampleStart.instrumented? (scopeEnvironment []) strayBlock (.of .amd64) sampleHooks).getD
    (.empty 184)

/-- The temporary is assigned once more for the hook, so it does matter that a block has what it assigns. -/
theorem singleAssignment_of_stray :
    ¬∀ (c : Checker) (env : Environment) (source out : SuperBlock) (layout : Layout) (hooks : Hooks)
      (o : Outcome (Except InstrumentError SuperBlock)), source.SingleAssignment →
        c.instrument env source layout hooks = .ok o → o.value = .ok out →
          out.SingleAssignment := by
  intro kept
  have found : sampleStart.instrumented? (scopeEnvironment []) strayBlock (.of .amd64) sampleHooks =
      some strayOut := by decide +kernel
  obtain ⟨o, done, made⟩ := instrumented?_eq_some found
  have stray : strayBlock.SingleAssignment := by
    refine ⟨?_, ?_, fun t absurd => by contradiction, by decide, ?_⟩
    · simp [strayBlock, Stmt.operands]
    · simp [strayBlock, AssignedFirst, Stmt.operands]
    · simp [strayBlock]
  have twice : ¬(assigned strayOut.stmts).Nodup := by decide +kernel
  exact twice (kept _ _ _ _ _ _ _ stray done made).once

end Checker

end Overrun
