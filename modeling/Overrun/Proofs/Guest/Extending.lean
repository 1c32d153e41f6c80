import Overrun.Guest.Builder
import Overrun.Proofs.Faults

/-! What a call of a helper adds to a block, to the letter. Values are computed into new temporaries, one
for each narrow temporary that is passed on, and the call follows with host words alone. -/

namespace Overrun.Guest

def Atom.ty? (temps : List Ty) : Atom → Option Ty
  | temp t => temps[t.index]?
  | const c => some c.ty

theorem SuperBlock.atomTy_eq_ok_iff {block : SuperBlock} {a : Atom} {ty : Ty} :
    block.atomTy a = .ok ty ↔ a.ty? block.temps = some ty := by
  cases a with
  | const c => simp [atomTy, Atom.ty?]
  | temp t =>
    unfold atomTy tempTy Atom.ty?
    dsimp only
    split
    · next held same => simp [same]
    · next same => simp [same]

theorem SuperBlock.tempTy_eq_ok_iff {block : SuperBlock} {t : Temp} {ty : Ty} :
    block.tempTy t = .ok ty ↔ block.temps[t.index]? = some ty :=
  atomTy_eq_ok_iff (a := .temp t)

theorem Atom.ty?_append {temps : List Ty} {a : Atom} {ty : Ty} (typed : a.ty? temps = some ty)
    (more : List Ty) : a.ty? (temps ++ more) = some ty := by
  cases a with
  | const c => exact typed
  | temp t =>
    obtain ⟨inside, -⟩ := List.getElem?_eq_some_iff.1 typed
    exact (List.getElem?_append_left inside).trans typed

def nextTemp (temps : List Ty) : Atom :=
  .temp ⟨temps.length⟩

theorem ty?_nextTemp (temps : List Ty) (ty : Ty) (more : List Ty) :
    (nextTemp temps).ty? (temps ++ ty :: more) = some ty := by
  show (temps ++ ty :: more)[temps.length]? = some ty
  rw [List.getElem?_append_right (Nat.le_refl _), Nat.sub_self]
  rfl

structure Computation where
  ty : Ty
  expr : Expr
  deriving DecidableEq, Repr

def assignments (first : Nat) : List Computation → List Stmt
  | [] => []
  | value :: rest => .assign ⟨first⟩ value.expr :: assignments (first + 1) rest

theorem assignments_append (first : Nat) (values more : List Computation) :
    assignments first (values ++ more) =
      assignments first values ++ assignments (first + values.length) more := by
  induction values generalizing first with
  | nil => rfl
  | cons value rest ih =>
    have step : first + (value :: rest).length = first + 1 + rest.length := by
      rw [List.length_cons]
      omega
    rw [step, List.cons_append]
    exact congrArg _ (ih (first + 1))

namespace Builder

def extend (b : Builder) (code : List Stmt) (types : List Ty) : Builder :=
  { b with block := { b.block with
    temps := b.block.temps ++ types
    stmts := b.block.stmts ++ code } }

theorem extend_nil (b : Builder) : b.extend [] [] = b := by
  unfold extend
  rw [List.append_nil, List.append_nil]

theorem extend_extend (b : Builder) (code more : List Stmt) (types others : List Ty) :
    (b.extend code types).extend more others = b.extend (code ++ more) (types ++ others) := by
  unfold extend
  dsimp only
  rw [List.append_assoc, List.append_assoc]

theorem push_eq (b : Builder) (stmt : Stmt) : b.push stmt = b.extend [stmt] [] := by
  unfold extend
  rw [List.append_nil]
  rfl

def compute (b : Builder) (values : List Computation) : Builder :=
  b.extend (assignments b.block.temps.length values) (values.map (·.ty))

theorem compute_compute (b : Builder) (values more : List Computation) :
    (b.compute values).compute more = b.compute (values ++ more) := by
  have after : (b.compute values).block.temps.length = b.block.temps.length + values.length := by
    unfold compute extend
    dsimp only
    rw [List.length_append, List.length_map]
  unfold compute at after ⊢
  rw [after, extend_extend, assignments_append, List.map_append]

end Builder

/-- How an atom becomes a host word where there are `temps`: what is passed for it, and the values that
are computed for that. -/
inductive Widens (temps : List Ty) : Atom → Atom → List Computation → Prop where
  | word {a : Atom} (typed : a.ty? temps = some .i64) : Widens temps a a []
  | const {c : Const} {op : UnOp} (narrow : UnOp.widening? c.ty = some op) :
      Widens temps (.const c) (.const (.i64 c.value)) []
  | temp {t : Temp} {ty : Ty} {op : UnOp} (typed : temps[t.index]? = some ty)
      (narrow : UnOp.widening? ty = some op) :
      Widens temps (.temp t) (nextTemp temps) [⟨.i64, .unop op (.temp t)⟩]

inductive WidensAll : List Ty → List Atom → List Atom → List Computation → Prop where
  | nil {temps : List Ty} : WidensAll temps [] [] []
  | cons {temps : List Ty} {a word : Atom} {rest words : List Atom} {values more : List Computation}
      (first : Widens temps a word values)
      (onward : WidensAll (temps ++ values.map (·.ty)) rest words more) :
      WidensAll temps (a :: rest) (word :: words) (values ++ more)

namespace Builder

variable {b after : Builder}

theorem widen_ok {a word : Atom} (done : b.widen a = .ok (.ok word, after)) :
    ∃ values, Widens b.block.temps a word values ∧ after = b.compute values := by
  unfold widen at done
  obtain ⟨ty, typed, done⟩ := bind_eq_ok.1 done
  rw [SuperBlock.atomTy_eq_ok_iff] at typed
  split at done
  · next wide =>
    cases done
    exact ⟨[], .word (wide ▸ typed), b.extend_nil.symm⟩
  · split at done
    · cases done
    · next op narrow =>
      split at done
      · cases typed
        cases done
        exact ⟨[], .const narrow, b.extend_nil.symm⟩
      · cases done
        have result : op.ty = .i64 := by
          unfold UnOp.widening? at narrow
          split at narrow <;> cases narrow <;> rfl
        refine ⟨_, .temp typed narrow, ?_⟩
        rw [← result]
        rfl

theorem widenAll_ok {args words : List Atom} (done : b.widenAll args = .ok (.ok words, after)) :
    ∃ values, WidensAll b.block.temps args words values ∧ after = b.compute values := by
  induction args generalizing b words with
  | nil =>
    cases done
    exact ⟨[], .nil, after.extend_nil.symm⟩
  | cons a rest ih =>
    unfold widenAll at done
    obtain ⟨⟨widened, middle⟩, widening, done⟩ := bind_eq_ok.1 done
    cases widened with
    | error e => cases done
    | ok word =>
      obtain ⟨⟨others, last⟩, onward, done⟩ := bind_eq_ok.1 done
      cases others with
      | error e => cases done
      | ok more =>
        cases done
        obtain ⟨values, first, rfl⟩ := widen_ok widening
        obtain ⟨later, all, rfl⟩ := ih onward
        exact ⟨values ++ later, .cons first all, b.compute_compute values later⟩

theorem callHelper_ok {callee : Callee} {args : List Atom} {effect : Option MemoryEffect}
    (done : b.callHelper callee args effect = .ok (.ok (), after)) :
    args.length ≤ maxHelperArgs ∧ ∃ words values, WidensAll b.block.temps args words values ∧
      after = (b.compute values).push (.call ⟨callee, none, words, none, effect⟩) := by
  unfold callHelper at done
  split at done
  · cases done
  · next few =>
    obtain ⟨⟨widened, middle⟩, widening, done⟩ := bind_eq_ok.1 done
    cases widened with
    | error e => cases done
    | ok words =>
      cases done
      obtain ⟨values, all, rfl⟩ := widenAll_ok widening
      exact ⟨Nat.le_of_not_lt few, words, values, all, rfl⟩

end Builder

end Overrun.Guest
