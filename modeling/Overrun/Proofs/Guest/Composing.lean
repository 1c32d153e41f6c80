import Overrun.Guest.Build
import Overrun.Proofs.Guest.Refusing
import Overrun.Proofs.Guest.SingleAssignment

/-! Blocks that are put together by the operations of a builder. Those that allocate a temporary assign it
at once and at its type, and so do the ones that a refused call has gone through before it is refused. -/

namespace Overrun.Guest

def Atom.From (known : List Temp) : Atom → Prop
  | temp t => t ∈ known
  | const _ => True

instance (known : List Temp) : (a : Atom) → Decidable (a.From known)
  | .temp t => inferInstanceAs (Decidable (t ∈ known))
  | .const _ => .isTrue trivial

theorem Atom.From.mono {known more : List Temp} {a : Atom} (of : a.From known)
    (grown : known ⊆ more) : a.From more := by
  cases a with
  | temp t => exact grown of
  | const c => trivial

namespace Build

def operands : Build → List Atom
  | mark .. | newTemp _ | get .. | getSlot _ | getSubSlot .. | loadSp | loadFp | wordConst _ => []
  | load _ addr => [addr]
  | store addr data => [addr, data]
  | swap addr expected data => [addr, expected, data]
  | put _ data => [data]
  | unop _ arg => [arg]
  | binop _ lhs rhs => [lhs, rhs]
  | assign _ expr => expr.operands
  | widen atom | atomTy atom => [atom]
  | callHelper _ args effect => args ++ (effect.map (·.addr)).toList
  | exit guard .. => [guard]
  | push stmt => stmt.operands

/-- Whether an operation itself settles what it allocates, assigns and at which type. -/
def isRoutine : Build → Bool
  | newTemp _ | assign .. | push _ => false
  | mark .. | get .. | getSlot _ | getSubSlot .. | loadSp | loadFp | load .. | store .. | swap ..
  | put .. | unop .. | binop .. | widen _ | wordConst _ | callHelper .. | exit .. | atomTy _ => true

end Build

def Built.temps : Built → List Temp
  | atom (.temp t) => [t]
  | atom (.const _) | done | ty _ | failed _ => []

/-- Whether operations are routine and use no temporaries but known ones and those that earlier ones
gave back. -/
def Builder.Supplied (b : Builder) (known : List Temp) : List Build → Prop
  | [] => True
  | op :: ops => op.isRoutine = true ∧ (∀ a ∈ op.operands, a.From known) ∧
    match b.step op with
    | .ok (built, after) => after.Supplied (known ++ built.temps) ops
    | .error _ => True

instance decidableSupplied (b : Builder) (known : List Temp) :
    (ops : List Build) → Decidable (b.Supplied known ops)
  | [] => .isTrue trivial
  | op :: ops =>
    have : Decidable (match b.step op with
        | .ok (built, after) => after.Supplied (known ++ built.temps) ops
        | .error _ => True) :=
      match b.step op with
      | .ok (built, after) => decidableSupplied after (known ++ built.temps) ops
      | .error _ => .isTrue trivial
    inferInstanceAs (Decidable (_ ∧ _ ∧ _))

/-- Whether a block assigns each of its temporaries once and in their order, before every use, and at the
type that it has. -/
structure SuperBlock.Sequential (block : SuperBlock) : Prop where
  once : assigned block.stmts = freshTemps 0 block.temps.length
  first : AssignedFirst [] block.stmts
  typed : ∀ t e, .assign t e ∈ block.stmts →
    ∃ ty, block.exprTy e = .ok ty ∧ block.tempTy t = .ok ty
  swapped : ∀ s, .swap s ∈ block.stmts →
    ∃ ty, block.atomTy s.expected = .ok ty ∧ block.tempTy s.old = .ok ty

def Stmt.Typed (temps : List Ty) : Stmt → Prop
  | assign t e => ∃ ty, e.ty? temps = some ty ∧ temps[t.index]? = some ty
  | swap s => ∃ ty, s.expected.ty? temps = some ty ∧ temps[s.old.index]? = some ty
  | nop | mark .. | put .. | store .. | call _ | fence | exit .. => True

theorem Stmt.Typed.append {temps : List Ty} {stmt : Stmt} (typed : stmt.Typed temps)
    (more : List Ty) : stmt.Typed (temps ++ more) := by
  cases stmt with
  | assign t e =>
    obtain ⟨ty, given, held⟩ := typed
    exact ⟨ty, Expr.ty?_append given more, Atom.ty?_append (a := .temp t) held more⟩
  | swap s =>
    obtain ⟨ty, given, held⟩ := typed
    exact ⟨ty, Atom.ty?_append given more, Atom.ty?_append (a := .temp s.old) held more⟩
  | _ => trivial

/-- Whether code can go on where `temps` are assigned, and assigns just the temporaries that come next,
of the types given, once and in their order. -/
structure Follows (temps : List Ty) (code : List Stmt) (types : List Ty) : Prop where
  once : assigned code = freshTemps temps.length types.length
  first : AssignedFirst (freshTemps 0 temps.length) code
  typed : ∀ stmt ∈ code, stmt.Typed (temps ++ types)

theorem Follows.sequential {block : SuperBlock} (follows : Follows [] block.stmts block.temps) :
    block.Sequential where
  once := follows.once
  first := follows.first
  typed t e member := by
    obtain ⟨ty, given, held⟩ := follows.typed _ member
    exact ⟨ty, SuperBlock.exprTy_eq_ok_iff.2 given, SuperBlock.tempTy_eq_ok_iff.2 held⟩
  swapped s member := by
    obtain ⟨ty, given, held⟩ := follows.typed _ member
    exact ⟨ty, SuperBlock.atomTy_eq_ok_iff.2 given, SuperBlock.tempTy_eq_ok_iff.2 held⟩

section Follows

variable {temps types others : List Ty} {code more : List Stmt} {stmt : Stmt}

theorem follows_nil (temps : List Ty) : Follows temps [] [] :=
  ⟨rfl, trivial, fun _ absurd => by contradiction⟩

theorem freshTemps_zero_append (count more : Nat) :
    freshTemps 0 count ++ freshTemps count more = freshTemps 0 (count + more) := by
  have joined := freshTemps_append 0 count more
  rwa [Nat.zero_add] at joined

theorem Follows.append (early : Follows temps code types)
    (late : Follows (temps ++ types) more others) :
    Follows temps (code ++ more) (types ++ others) := by
  have reach : (temps ++ types).length = temps.length + types.length := List.length_append
  refine ⟨?_, ?_, fun stmt member => ?_⟩
  · rw [assigned_append, early.once, late.once, reach, freshTemps_append, List.length_append]
  · refine assignedFirst_append.2 ⟨early.first, ?_⟩
    rw [early.once, freshTemps_zero_append, ← reach]
    exact late.first
  · rw [← List.append_assoc]
    rcases List.mem_append.1 member with old | new
    · exact (early.typed stmt old).append others
    · exact late.typed stmt new

theorem follows_single (once : stmt.assigned?.toList = freshTemps temps.length types.length)
    (used : ∀ a ∈ stmt.operands, a.From (freshTemps 0 temps.length))
    (typed : stmt.Typed (temps ++ types)) : Follows temps [stmt] types := by
  refine ⟨?_, ⟨fun t member => used _ member, trivial⟩, fun other member => ?_⟩
  · rw [← once]
    show [stmt].filterMap Stmt.assigned? = _
    cases h : stmt.assigned? <;> simp [h]
  · rw [List.mem_singleton.1 member]
    exact typed

end Follows

theorem Atom.From.typed {temps : List Ty} {a : Atom} (of : a.From (freshTemps 0 temps.length)) :
    ∃ ty, a.ty? temps = some ty := by
  cases a with
  | temp t =>
    have inside := (mem_freshTemps.1 of).2
    rw [Nat.zero_add] at inside
    exact ⟨_, List.getElem?_eq_getElem inside⟩
  | const c => exact ⟨_, rfl⟩

namespace Builder

variable {b middle after : Builder}

def known (b : Builder) : List Temp :=
  freshTemps 0 b.block.temps.length

def Grows (b after : Builder) : Prop :=
  ∃ code types, after = b.extend code types ∧ Follows b.block.temps code types

theorem Grows.refl (b : Builder) : b.Grows b :=
  ⟨[], [], b.extend_nil.symm, follows_nil _⟩

theorem Grows.trans (early : b.Grows middle) (late : middle.Grows after) : b.Grows after := by
  obtain ⟨code, types, rfl, first⟩ := early
  obtain ⟨more, others, rfl, onward⟩ := late
  exact ⟨_, _, b.extend_extend _ _ _ _, first.append onward⟩

theorem Grows.known_subset (grows : b.Grows after) : b.known ⊆ after.known := by
  obtain ⟨code, types, rfl, -⟩ := grows
  intro t member
  have reach : (b.block.temps ++ types).length = b.block.temps.length + types.length :=
    List.length_append
  have early := mem_freshTemps.1 member
  refine mem_freshTemps.2 ⟨early.1, ?_⟩
  show t.index < 0 + (b.block.temps ++ types).length
  omega

theorem grows_push {stmt : Stmt} (none : stmt.assigned? = none)
    (used : ∀ a ∈ stmt.operands, a.From b.known) : b.Grows (b.push stmt) := by
  refine ⟨_, _, b.push_eq stmt, follows_single (by rw [none]; rfl) used ?_⟩
  cases stmt <;> trivial

structure Made (b : Builder) (built : Built) (after : Builder) : Prop where
  grows : b.Grows after
  back : ∀ t ∈ built.temps, t ∈ after.known

theorem made_nothing {built : Built} (none : built.temps = []) : b.Made built b := by
  refine ⟨.refl b, fun t member => ?_⟩
  rw [none] at member
  contradiction

theorem made_push {stmt : Stmt} (none : stmt.assigned? = none)
    (used : ∀ a ∈ stmt.operands, a.From b.known) : b.Made .done (b.push stmt) :=
  ⟨grows_push none used, fun t absurd => by contradiction⟩

theorem made_temp (stmt : Stmt) {ty : Ty} (assigns : stmt.assigned? = some ⟨b.block.temps.length⟩)
    (used : ∀ a ∈ stmt.operands, a.From b.known) (typed : stmt.Typed (b.block.temps ++ [ty])) :
    b.Made (.atom (nextTemp b.block.temps)) (b.extend [stmt] [ty]) := by
  refine ⟨⟨_, _, rfl, follows_single (by rw [assigns]; rfl) used typed⟩, fun t member => ?_⟩
  rw [List.mem_singleton.1 member, known, mem_freshTemps]
  show 0 ≤ b.block.temps.length ∧ b.block.temps.length < 0 + (b.block.temps ++ [ty]).length
  rw [List.length_append, List.length_singleton]
  omega

theorem made_assign {ty : Ty} {e : Expr} (used : ∀ a ∈ e.operands, a.From b.known)
    (typed : e.ty? (b.block.temps ++ [ty]) = some ty) :
    b.Made (.atom (nextTemp b.block.temps)) (b.assign ty e).2 :=
  made_temp (.assign _ e) rfl used ⟨ty, typed, ty?_nextTemp b.block.temps ty []⟩

theorem exists_made_swap {addr expected data : Atom}
    (used : ∀ a ∈ [addr, expected, data], a.From b.known) :
    ∃ built after, b.step (.swap addr expected data) = .ok (built, after) ∧ b.Made built after := by
  have member : expected ∈ [addr, expected, data] := List.mem_cons_of_mem _ List.mem_cons_self
  obtain ⟨ty, typed⟩ := (used expected member).typed
  let stmt : Stmt := .swap ⟨⟨b.block.temps.length⟩, b.layout.endian, addr, expected, data⟩
  have swaps : stmt.Typed (b.block.temps ++ [ty]) :=
    ⟨ty, Atom.ty?_append typed _, ty?_nextTemp b.block.temps ty []⟩
  refine ⟨_, b.extend [stmt] [ty], ?_, made_temp stmt rfl used swaps⟩
  show (b.swap addr expected data >>= ofTemp) = _
  unfold swap
  rw [SuperBlock.atomTy_eq_ok_iff.2 typed]
  rfl

theorem grows_widens {a word : Atom} {values : List Computation}
    (widens : Widens b.block.temps a word values) (used : a.From b.known) :
    b.Grows (b.compute values) ∧ word.From (b.compute values).known := by
  have proper := widens.proper
  cases widens with
  | word | const =>
    have same : b.compute [] = b := b.extend_nil
    rw [same]
    exact ⟨.refl b, used⟩
  | @temp t ty op =>
    have wide : (Expr.unop op (.temp t)).ty? (b.block.temps ++ [.i64]) = some .i64 :=
      (proper _ List.mem_cons_self).ty? _
    have usedOperands : ∀ a ∈ (Expr.unop op (.temp t)).operands, a.From b.known :=
      List.forall_mem_singleton.2 used
    have made := made_assign usedOperands wide
    exact ⟨made.grows, made.back _ List.mem_cons_self⟩

theorem exists_widen {a : Atom} (used : a.From b.known) :
    ∃ result after, b.widen a = .ok (result, after) ∧ b.Grows after ∧
      ∀ word, result = .ok word → word.From after.known := by
  obtain ⟨ty, typed⟩ := used.typed
  cases hostWord : ty.isHostWord with
  | false =>
    exact ⟨_, b, widen_of_unfit typed hostWord, .refl b, fun word absurd => by contradiction⟩
  | true =>
    obtain ⟨word, values, widens, done⟩ := widen_of_fits ⟨ty, typed, hostWord⟩
    obtain ⟨grows, passed⟩ := grows_widens widens used
    refine ⟨.ok word, b.compute values, done, grows, fun other same => ?_⟩
    cases same
    exact passed

theorem exists_widenAll {args : List Atom} (used : ∀ a ∈ args, a.From b.known) :
    ∃ result after, b.widenAll args = .ok (result, after) ∧ b.Grows after ∧
      ∀ words, result = .ok words → ∀ word ∈ words, word.From after.known := by
  induction args generalizing b with
  | nil =>
    refine ⟨.ok [], b, rfl, .refl b, fun words same => ?_⟩
    cases same
    exact List.forall_mem_nil _
  | cons a rest ih =>
    obtain ⟨usedFirst, usedRest⟩ := List.forall_mem_cons.1 used
    obtain ⟨result, middle, done, grows, passed⟩ := exists_widen usedFirst
    cases result with
    | error e =>
      exact ⟨_, middle, widenAll_cons_of_error done, grows, fun words absurd => by contradiction⟩
    | ok word =>
      obtain ⟨others, after, all, onward, passedRest⟩ :=
        ih fun other member => (usedRest other member).mono grows.known_subset
      refine ⟨_, after, (widenAll_cons_of_ok done).trans (by rw [all]; rfl), grows.trans onward, ?_⟩
      intro words same
      cases others with
      | error e => contradiction
      | ok more =>
        cases same
        exact List.forall_mem_cons.2
          ⟨(passed word rfl).mono onward.known_subset, passedRest more rfl⟩

theorem exists_made_widen {a : Atom} (used : a.From b.known) :
    ∃ built after, b.step (.widen a) = .ok (built, after) ∧ b.Made built after := by
  have step : b.step (.widen a) = (b.widen a >>= _) := rfl
  obtain ⟨result, after, done, grows, passed⟩ := exists_widen used
  rw [step, done]
  cases result with
  | error e => exact ⟨_, _, rfl, grows, fun t absurd => by contradiction⟩
  | ok word =>
    refine ⟨.atom word, after, rfl, grows, fun t member => ?_⟩
    cases word with
    | temp other =>
      rw [List.mem_singleton.1 member]
      exact passed _ rfl
    | const c => contradiction

theorem exists_made_callHelper {callee : Callee} {args : List Atom} {effect : Option MemoryEffect}
    (used : ∀ a ∈ args ++ (effect.map (·.addr)).toList, a.From b.known) :
    ∃ built after, b.step (.callHelper callee args effect) = .ok (built, after) ∧
      b.Made built after := by
  have step : b.step (.callHelper callee args effect) = (b.callHelper callee args effect >>= _) := rfl
  rw [step]
  unfold callHelper
  by_cases many : args.length > maxHelperArgs
  · rw [if_pos many]
    exact ⟨_, _, rfl, made_nothing rfl⟩
  obtain ⟨usedArgs, usedEffect⟩ := List.forall_mem_append.1 used
  obtain ⟨result, middle, done, grows, passed⟩ := exists_widenAll usedArgs
  rw [if_neg many, done]
  cases result with
  | error e => exact ⟨_, _, rfl, grows, fun t absurd => by contradiction⟩
  | ok words =>
    have there : ∀ a ∈ words ++ (effect.map (·.addr)).toList, a.From middle.known :=
      List.forall_mem_append.2
        ⟨passed words rfl, fun a member => (usedEffect a member).mono grows.known_subset⟩
    exact ⟨_, _, rfl, grows.trans (grows_push rfl there), fun t absurd => by contradiction⟩

theorem exists_made (b : Builder) {op : Build} (routine : op.isRoutine = true)
    (used : ∀ a ∈ op.operands, a.From b.known) :
    ∃ built after, b.step op = .ok (built, after) ∧ b.Made built after := by
  cases op with
  | newTemp | assign | push => contradiction
  | mark | store | put | exit => exact ⟨_, _, rfl, made_push rfl used⟩
  | get | getSlot | getSubSlot | loadSp | loadFp | load | unop | binop =>
    exact ⟨_, _, rfl, made_assign used rfl⟩
  | swap addr expected data => exact exists_made_swap used
  | widen atom => exact exists_made_widen (List.forall_mem_singleton.1 used)
  | callHelper callee args effect => exact exists_made_callHelper used
  | wordConst value => exact ⟨_, _, rfl, made_nothing rfl⟩
  | atomTy atom =>
    obtain ⟨ty, typed⟩ := (List.forall_mem_singleton.1 used).typed
    refine ⟨.ty ty, b, ?_, made_nothing rfl⟩
    show (b.block.atomTy atom >>= _) = _
    rw [SuperBlock.atomTy_eq_ok_iff.2 typed]
    rfl

theorem Supplied.run {known : List Temp} {ops : List Build} (supplied : b.Supplied known ops)
    (held : known ⊆ b.known) :
    ∃ built after, b.run ops = .ok (built, after) ∧ b.Grows after ∧
      ∀ out ∈ built, out.temps ⊆ after.known := by
  -- What carries the induction is that all that has been given back has been allocated before.
  induction ops generalizing b known with
  | nil => exact ⟨[], b, rfl, .refl b, fun out absurd => by contradiction⟩
  | cons op ops ih =>
    obtain ⟨routine, used, onward⟩ := supplied
    obtain ⟨out, middle, done, made⟩ :=
      b.exists_made routine fun a member => (used a member).mono held
    rw [done] at onward
    have grown : known ++ out.temps ⊆ middle.known :=
      List.append_subset.2 ⟨List.Subset.trans held made.grows.known_subset, made.back⟩
    obtain ⟨rest, after, ran, grows, back⟩ := ih onward grown
    have first : out.temps ⊆ after.known := List.Subset.trans made.back grows.known_subset
    refine ⟨out :: rest, after, ?_, made.grows.trans grows, List.forall_mem_cons.2 ⟨first, back⟩⟩
    show (b.step op >>= _) = _
    rw [done]
    show (middle.run ops >>= _) = _
    rw [ran]
    rfl

/-- Whatever routine operations are made of a new builder, if they use only what they have been given before
they come to an end. The block assigns each of its temporaries once, in order, before every use and at the
type it has, and those that have been given back are among them. -/
theorem run_sequential (layout : Layout) (ops : List Build)
    (supplied : (empty layout).Supplied [] ops) :
    ∃ built b, (empty layout).run ops = .ok (built, b) ∧ b.block.Sequential ∧
      ∀ out ∈ built, out.temps ⊆ assigned b.block.stmts := by
  obtain ⟨built, b, ran, ⟨code, types, grown, follows⟩, back⟩ := supplied.run (List.nil_subset _)
  have sequential : b.block.Sequential := by
    rw [grown]
    exact Follows.sequential follows
  refine ⟨built, b, ran, sequential, fun out member => ?_⟩
  rw [sequential.once]
  exact back out member

/-- Operations that widen, swap and leave the block. A call is refused after its first argument has been
widened, and another is made. -/
def sampleOperations : List Build := [
  .mark 0x1000 3,
  .getSlot 24,
  .load .i16 (.temp ⟨0⟩),
  .swap (.temp ⟨0⟩) (.temp ⟨1⟩) (.const (.i16 7)),
  .get 40 .f64,
  .callHelper ⟨"note", 0x1000⟩ [.temp ⟨2⟩, .temp ⟨3⟩] none,
  .callHelper ⟨"note", 0x1000⟩ [.temp ⟨1⟩, .const (.i8 5)] (some ⟨.read, .temp ⟨0⟩, 2⟩),
  .widen (.temp ⟨0⟩),
  .binop .lessU64 (.temp ⟨6⟩) (.const (.i64 0x2000)),
  .exit (.temp ⟨7⟩) .boring 0x2000]

theorem run_sequential_sample :
    ∃ built b, (empty (Layout.of .x86)).run sampleOperations = .ok (built, b) ∧
      .failed (.notHostWord .f64) ∈ built ∧
      b.block.temps = [.i32, .i16, .i16, .f64, .i64, .i64, .i64, .i1] ∧
      assigned b.block.stmts = [⟨0⟩, ⟨1⟩, ⟨2⟩, ⟨3⟩, ⟨4⟩, ⟨5⟩, ⟨6⟩, ⟨7⟩] ∧ b.block.Sequential ∧
      ∀ out ∈ built, out.temps ⊆ assigned b.block.stmts := by
  have supplied : (empty (Layout.of .x86)).Supplied [] sampleOperations := by decide
  obtain ⟨built, b, ran, sequential⟩ := run_sequential (Layout.of .x86) sampleOperations supplied
  cases ran
  exact ⟨_, _, rfl, by decide, rfl, rfl, sequential⟩

end Builder

end Overrun.Guest
