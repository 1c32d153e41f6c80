import Overrun.Proofs.Guest.Valuation

/-! Blocks that assign each temporary once, at its own type, and before it is used. What is computed for
the arguments of a helper keeps to that. -/

namespace Overrun.Guest

def Expr.operands : Expr → List Atom
  | atom a => [a]
  | get .. => []
  | load _ _ addr => [addr]
  | unop _ arg => [arg]
  | binop _ lhs rhs => [lhs, rhs]

namespace Stmt

def operands : Stmt → List Atom
  | nop | mark .. | fence => []
  | put _ data => [data]
  | assign _ expr => expr.operands
  | store _ addr data => [addr, data]
  | swap s => [s.addr, s.expected, s.data]
  | call c => c.guard.toList ++ c.args ++ (c.effect.map (·.addr)).toList
  | exit guard .. => [guard]

def assigned? : Stmt → Option Temp
  | assign t _ => some t
  | swap s => some s.old
  | call c => c.result
  | nop | mark .. | put .. | store .. | fence | exit .. => none

end Stmt

def assigned (stmts : List Stmt) : List Temp :=
  stmts.filterMap Stmt.assigned?

theorem assigned_append (stmts more : List Stmt) :
    assigned (stmts ++ more) = assigned stmts ++ assigned more :=
  List.filterMap_append

/-- Whether every temporary that is used is known or assigned by an earlier statement. -/
def AssignedFirst (known : List Temp) : List Stmt → Prop
  | [] => True
  | stmt :: rest =>
    (∀ t, .temp t ∈ stmt.operands → t ∈ known) ∧ AssignedFirst (known ++ assigned [stmt]) rest

theorem assignedFirst_append {known : List Temp} {stmts more : List Stmt} :
    AssignedFirst known (stmts ++ more) ↔
      AssignedFirst known stmts ∧ AssignedFirst (known ++ assigned stmts) more := by
  induction stmts generalizing known with
  | nil => simp [AssignedFirst, assigned]
  | cons stmt rest ih =>
    have split : assigned (stmt :: rest) = assigned [stmt] ++ assigned rest :=
      assigned_append [stmt] rest
    show (_ ∧ AssignedFirst (known ++ assigned [stmt]) (rest ++ more)) ↔
      (_ ∧ AssignedFirst (known ++ assigned [stmt]) rest) ∧ _
    rw [ih, split, List.append_assoc, and_assoc]

/-- Whether a block uses only temporaries that it has and has assigned before, assigns none of them
twice, and assigns values of their types. -/
structure SuperBlock.SingleAssignment (block : SuperBlock) : Prop where
  declared : ∀ stmt ∈ block.stmts, ∀ t, .temp t ∈ stmt.operands → t.index < block.temps.length
  first : AssignedFirst [] block.stmts
  next : ∀ t, block.next = .temp t → t.index < block.temps.length ∧ t ∈ assigned block.stmts
  once : (assigned block.stmts).Nodup
  typed : ∀ t e, .assign t e ∈ block.stmts →
    ∃ ty, block.exprTy e = .ok ty ∧ block.tempTy t = .ok ty

def SuperBlock.OwnTemps (block : SuperBlock) : Prop :=
  ∀ t ∈ assigned block.stmts, t.index < block.temps.length

instance (block : SuperBlock) : Decidable block.OwnTemps :=
  inferInstanceAs (Decidable (∀ t ∈ assigned block.stmts, t.index < block.temps.length))

def Expr.ty? (temps : List Ty) : Expr → Option Ty
  | atom a => a.ty? temps
  | get _ ty | load _ ty _ => some ty
  | unop op _ => some op.ty
  | binop op _ _ => some op.ty

theorem SuperBlock.exprTy_eq_ok_iff {block : SuperBlock} {e : Expr} {ty : Ty} :
    block.exprTy e = .ok ty ↔ e.ty? block.temps = some ty := by
  cases e with
  | atom a => exact atomTy_eq_ok_iff
  | _ => simp [exprTy, Expr.ty?]

theorem Expr.ty?_append {temps : List Ty} {e : Expr} {ty : Ty} (typed : e.ty? temps = some ty)
    (more : List Ty) : e.ty? (temps ++ more) = some ty := by
  cases e with
  | atom a => exact Atom.ty?_append typed more
  | _ => exact typed

def freshTemps (first count : Nat) : List Temp :=
  (List.range' first count).map Temp.mk

theorem freshTemps_append (first count more : Nat) :
    freshTemps first count ++ freshTemps (first + count) more =
      freshTemps first (count + more) := by
  unfold freshTemps
  rw [← List.map_append, List.range'_append_1]

theorem mem_freshTemps {first count : Nat} {t : Temp} :
    t ∈ freshTemps first count ↔ first ≤ t.index ∧ t.index < first + count := by
  unfold freshTemps
  constructor
  · intro member
    obtain ⟨index, inside, rfl⟩ := List.mem_map.1 member
    exact List.mem_range'_1.1 inside
  · intro inside
    exact List.mem_map.2 ⟨t.index, List.mem_range'_1.2 inside, rfl⟩

theorem nodup_freshTemps (first count : Nat) : (freshTemps first count).Nodup := by
  apply List.pairwise_map.2
  exact List.Pairwise.imp (fun apart same => apart (Temp.mk.inj same)) List.nodup_range'

theorem assigned_assignments (first : Nat) (values : List Computation) :
    assigned (assignments first values) = freshTemps first values.length := by
  induction values generalizing first with
  | nil => rfl
  | cons value rest ih =>
    show [⟨first⟩] ++ assigned (assignments (first + 1) rest) = _
    rw [ih, List.length_cons, Nat.add_comm rest.length 1, ← freshTemps_append]
    rfl

/-- Values that are computed for a helper where there are `temps`: reads of the guest state, and values
extended with zeros from just the type they have. -/
inductive Computation.Proper (temps : List Ty) : Computation → Prop where
  | read (offset : UInt32) (ty : Ty) : Proper temps ⟨ty, .get offset ty⟩
  | extend {op : UnOp} {a : Atom} {ty : Ty} (zeros : op.zeroExtended? = some ty)
      (typed : a.ty? temps = some ty) : Proper temps ⟨.i64, .unop op a⟩

namespace Computation

variable {temps : List Ty} {value : Computation}

theorem Proper.append (proper : value.Proper temps) (more : List Ty) :
    value.Proper (temps ++ more) := by
  cases proper with
  | read offset ty => exact .read offset ty
  | extend zeros typed => exact .extend zeros (Atom.ty?_append typed more)

theorem Proper.ty? (proper : value.Proper temps) (any : List Ty) :
    value.expr.ty? any = some value.ty := by
  cases proper with
  | read offset ty => rfl
  | @extend op a ty zeros typed =>
    show some op.ty = some .i64
    cases op <;> first | rfl | contradiction

end Computation

variable {temps : List Ty} {a word : Atom} {args words : List Atom} {values : List Computation}

theorem mem_assignments {first : Nat} {stmt : Stmt} (member : stmt ∈ assignments first values) :
    ∃ k value, values[k]? = some value ∧ stmt = .assign ⟨first + k⟩ value.expr := by
  induction values generalizing first with
  | nil => contradiction
  | cons value rest ih =>
    rcases List.mem_cons.1 member with rfl | later
    · exact ⟨0, value, rfl, rfl⟩
    · obtain ⟨k, other, held, rfl⟩ := ih later
      refine ⟨k + 1, other, held, ?_⟩
      rw [Nat.add_comm k 1, ← Nat.add_assoc]

theorem Widens.proper (widens : Widens temps a word values) :
    ∀ value ∈ values, value.Proper temps := by
  cases widens with
  | word | const => exact fun _ absurd => by contradiction
  | temp typed narrow =>
    intro value member
    rw [List.mem_singleton.1 member]
    exact .extend (UnOp.zeroExtended?_of_widening narrow) typed

theorem WidensAll.proper (widens : WidensAll temps args words values) :
    ∀ value ∈ values, value.Proper (temps ++ values.map (·.ty)) := by
  induction widens with
  | nil => exact fun _ absurd => by contradiction
  | cons first onward ih =>
    rw [List.map_append, ← List.append_assoc]
    intro value member
    rcases List.mem_append.1 member with early | late
    · exact ((first.proper value early).append _).append _
    · exact ih value late

theorem Widens.assignedFirst (widens : Widens temps a word values) {known : List Temp}
    (there : ∀ t, a = .temp t → t ∈ known) :
    AssignedFirst known (assignments temps.length values) ∧
      ∀ t, word = .temp t → t ∈ known ++ freshTemps temps.length values.length := by
  cases widens with
  | word => exact ⟨trivial, fun t same => List.mem_append_left _ (there t same)⟩
  | const => exact ⟨trivial, fun t absurd => by contradiction⟩
  | @temp t =>
    refine ⟨⟨fun other used => ?_, trivial⟩, fun other same => ?_⟩
    · cases List.mem_singleton.1 used
      exact there _ rfl
    · cases same
      exact List.mem_append_right _ (mem_freshTemps.2 ⟨Nat.le_refl _, Nat.lt_succ_self _⟩)

theorem WidensAll.assignedFirst (widens : WidensAll temps args words values) {known : List Temp}
    (there : ∀ t, .temp t ∈ args → t ∈ known) :
    AssignedFirst known (assignments temps.length values) ∧
      ∀ t, .temp t ∈ words → t ∈ known ++ freshTemps temps.length values.length := by
  induction widens generalizing known with
  | nil => exact ⟨trivial, fun _ absurd => by contradiction⟩
  | @cons temps a word rest words values more first onward ih =>
    have reach : (temps ++ values.map (·.ty)).length = temps.length + values.length := by
      rw [List.length_append, List.length_map]
    obtain ⟨early, passed⟩ :=
      first.assignedFirst fun t same => there t (same ▸ List.mem_cons_self)
    obtain ⟨late, passedLate⟩ := @ih (known ++ freshTemps temps.length values.length)
      fun t member => List.mem_append_left _ (there t (List.mem_cons_of_mem _ member))
    rw [reach] at late passedLate
    rw [List.append_assoc, freshTemps_append] at passedLate
    rw [assignments_append, assignedFirst_append, assigned_assignments, List.length_append]
    refine ⟨⟨early, late⟩, fun t member => ?_⟩
    rcases List.mem_cons.1 member with same | later
    · rw [← freshTemps_append, ← List.append_assoc]
      exact List.mem_append_left _ (passed t same.symm)
    · exact passedLate t later

end Overrun.Guest
