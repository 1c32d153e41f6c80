import Overrun.Proofs.Checker.Copying

/-! Instrumenting code looks up vectors and does nothing else to a checker, whether or not it succeeds.
Looking one up may add to the catalog and to the vectors that are known; the rest stays as it is. -/

namespace Overrun.Checker

def Consulted (before after : Checker) : Prop :=
  after = { before with catalog := after.catalog, vectors := after.vectors }

theorem Consulted.refl (c : Checker) : Consulted c c :=
  rfl

theorem Consulted.trans {a b c : Checker} (first : Consulted a b) (second : Consulted b c) :
    Consulted a c := by
  unfold Consulted at first second ⊢
  rw [second, first]

theorem Consulted.threads {before after : Checker} (consulted : Consulted before after) :
    after.threads = before.threads := by
  unfold Consulted at consulted
  rw [consulted]

inductive LookedUp (env : Environment) (c : Checker) : Checker → Prop where
  | nothing : LookedUp env c c
  | vector {after : Checker} (before : LookedUp env c after) (instruction : UInt64) :
      LookedUp env c (after.vectorAt env instruction).checker

theorem LookedUp.trans {env : Environment} {a b c : Checker} (first : LookedUp env a b)
    (second : LookedUp env b c) : LookedUp env a c := by
  induction second with
  | nothing => exact first
  | vector before instruction ih => exact ih.vector instruction

theorem vectorAt_consulted (env : Environment) (c : Checker) (instruction : UInt64) :
    Consulted c (c.vectorAt env instruction).checker := by
  unfold vectorAt
  split
  · exact Consulted.refl c
  · rfl

theorem LookedUp.consulted {env : Environment} {c after : Checker} (found : LookedUp env c after) :
    Consulted c after := by
  induction found with
  | nothing => exact Consulted.refl c
  | vector before instruction ih => exact ih.trans (vectorAt_consulted env _ instruction)

namespace Copying

variable {env : Environment} {source : Guest.SuperBlock} {hook : Guest.Callee} {p after : Copying}

theorem copy_lookedUp {index : Nat} {stmt : Guest.Stmt} {r : Except InstrumentError Unit}
    (done : p.copy env source hook index stmt = .ok (r, after)) :
    LookedUp env p.checker after.checker := by
  cases copy_eq_ok_iff.1 done with
  | zero => exact .nothing
  | @enter mark => exact LookedUp.nothing.vector mark.address
  | idle => exact .nothing
  | @reference _ _ middle _ _ meeting =>
    change LookedUp env p.checker middle.checker
    rw [(meet_frame meeting).1]
    exact .nothing

theorem copyAll_lookedUp {index : Nat} {stmts : List Guest.Stmt}
    {r : Except InstrumentError Unit}
    (done : p.copyAll env source hook index stmts = .ok (r, after)) :
    LookedUp env p.checker after.checker :=
  copyAll_induct (R := fun p q => LookedUp env p.checker q.checker) (fun _ => .nothing)
    LookedUp.trans copy_lookedUp done

theorem close_lookedUp {r : Except InstrumentError Unit}
    (done : p.close env source hook = .ok (r, after)) : LookedUp env p.checker after.checker := by
  cases close_eq_ok_iff.1 done with
  | plain | unmarked => exact .nothing
  | @call mark found _ _ _ _ lookup =>
    subst lookup
    exact LookedUp.nothing.vector mark.address

end Copying

theorem instrument_lookedUp {env : Environment} {c : Checker} {source : Guest.SuperBlock}
    {layout : Guest.Layout} {hooks : Hooks} {o : Outcome (Except InstrumentError Guest.SuperBlock)}
    (done : c.instrument env source layout hooks = .ok o) : LookedUp env c o.checker := by
  cases instrument_eq_ok_iff.1 done with
  | foreign => exact .nothing
  | refused _ copying => exact Copying.copyAll_lookedUp copying
  | unclosed _ copying closing | made _ copying closing =>
    exact (Copying.copyAll_lookedUp copying).trans (Copying.close_lookedUp closing)

end Overrun.Checker
