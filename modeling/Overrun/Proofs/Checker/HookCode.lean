import Overrun.Checker.Instrumentation
import Overrun.Proofs.Guest.SingleAssignment

/-! The code that calls a hook. It reads the stack and the frame pointer, extends what is narrow, and makes
one call that returns nothing. Nothing of the guest is written. -/

namespace Overrun

open Guest

def pointerReads (layout : Layout) : List Computation :=
  [⟨layout.wordTy, .get layout.spOffset layout.wordTy⟩,
    ⟨layout.wordTy, .get layout.fpOffset layout.wordTy⟩]

def accessArgs (ref : MemoryRef) (instruction : UInt64) (vector : VectorRef) (sp fp : Atom) :
    List Atom :=
  [ref.addr, sp, fp, .const (.i64 ref.signedSize), .const (.i64 instruction), vectorArg vector]

def callArgs (returnAddress : UInt64) (vector : VectorRef) (adjust : UInt64) (sp fp : Atom) :
    List Atom :=
  [sp, fp, .const (.i64 returnAddress), vectorArg vector, .const (.i64 adjust)]

/-- Code that is added where there are `temps` to call a hook, and the types of the temporaries that are
added with it. -/
inductive HookCode (layout : Layout) (temps : List Ty) (callee : Callee)
    (args : Atom → Atom → List Atom) : List Stmt → List Ty → Prop where
  | mk {words : List Atom} {values : List Computation} (few : words.length ≤ maxHelperArgs)
      (widens : WidensAll (temps ++ (pointerReads layout).map (·.ty))
        (args (nextTemp temps) (nextTemp (temps ++ [layout.wordTy]))) words values) :
      HookCode layout temps callee args
        (assignments temps.length (pointerReads layout ++ values)
          ++ [.call ⟨callee, none, words, none, none⟩])
        ((pointerReads layout ++ values).map (·.ty))

variable {b after : Builder} {hook callee : Callee} {layout : Layout} {temps types : List Ty}
  {args : Atom → Atom → List Atom} {code : List Stmt}

theorem compute_pointerReads (b : Builder) :
    b.loadSp.2.loadFp.2 = b.compute (pointerReads b.layout) :=
  b.compute_compute [⟨b.layout.wordTy, .get b.layout.spOffset b.layout.wordTy⟩]
    [⟨b.layout.wordTy, .get b.layout.fpOffset b.layout.wordTy⟩]

theorem hookCode_of_callHelper
    (done : (b.compute (pointerReads b.layout)).callHelper hook
      (args (nextTemp b.block.temps) (nextTemp (b.block.temps ++ [b.layout.wordTy]))) none =
        .ok (.ok (), after)) :
    ∃ code types, HookCode b.layout b.block.temps hook args code types ∧
      after = b.extend code types := by
  obtain ⟨few, words, values, widens, rfl⟩ := Builder.callHelper_ok done
  refine ⟨_, _, .mk (widens.length ▸ few) widens, ?_⟩
  rw [Builder.compute_compute, Builder.push_eq]
  unfold Builder.compute
  rw [Builder.extend_extend, List.append_nil]

theorem insertAccessHook_eq (b : Builder) (hook : Callee) (ref : MemoryRef) (instruction : UInt64)
    (vector : VectorRef) :
    insertAccessHook b hook ref instruction vector =
      (b.compute (pointerReads b.layout)).callHelper hook (accessArgs ref instruction vector
        (nextTemp b.block.temps) (nextTemp (b.block.temps ++ [b.layout.wordTy]))) none := by
  rw [← compute_pointerReads]
  rfl

theorem insertCallHook_eq (b : Builder) (hook : Callee) (returnAddress : UInt64)
    (vector : VectorRef) (adjust : UInt64) :
    insertCallHook b hook returnAddress vector adjust =
      (b.compute (pointerReads b.layout)).callHelper hook (callArgs returnAddress vector adjust
        (nextTemp b.block.temps) (nextTemp (b.block.temps ++ [b.layout.wordTy]))) none := by
  rw [← compute_pointerReads]
  rfl

theorem insertAccessHook_ok {ref : MemoryRef} {instruction : UInt64} {vector : VectorRef}
    (done : insertAccessHook b hook ref instruction vector = .ok (.ok (), after)) :
    ∃ code types, HookCode b.layout b.block.temps hook (accessArgs ref instruction vector) code types ∧
      after = b.extend code types := by
  rw [insertAccessHook_eq] at done
  exact hookCode_of_callHelper done

theorem insertCallHook_ok {returnAddress adjust : UInt64} {vector : VectorRef}
    (done : insertCallHook b hook returnAddress vector adjust = .ok (.ok (), after)) :
    ∃ code types,
      HookCode b.layout b.block.temps hook (callArgs returnAddress vector adjust) code types ∧
        after = b.extend code types := by
  rw [insertCallHook_eq] at done
  exact hookCode_of_callHelper done

/-- Statements that code for the hooks is made of: reads of the guest state and extensions with zeros, from
the type that the operation names, into temporaries from `first` on, and plain calls that are passed host
words. -/
inductive HookStmt (hooks : Hooks) (first : Nat) (temps : List Ty) : Stmt → Prop where
  | read {t : Temp} {ty : Ty} (offset : UInt32) (new : first ≤ t.index)
      (typed : temps[t.index]? = some ty) : HookStmt hooks first temps (.assign t (.get offset ty))
  | extend {t : Temp} {op : UnOp} {a : Atom} {ty : Ty} (new : first ≤ t.index)
      (typed : temps[t.index]? = some .i64) (zeros : op.zeroExtended? = some ty)
      (narrow : a.ty? temps = some ty) : HookStmt hooks first temps (.assign t (.unop op a))
  | call {callee : Callee} {words : List Atom} (known : callee = hooks.access ∨ callee = hooks.call)
      (few : words.length ≤ maxHelperArgs) (typed : ∀ word ∈ words, word.ty? temps = some .i64) :
      HookStmt hooks first temps (.call ⟨callee, none, words, none, none⟩)

theorem HookStmt.mono {hooks : Hooks} {first earlier : Nat} {stmt : Stmt}
    (fine : HookStmt hooks first temps stmt) (more : List Ty) (fewer : earlier ≤ first) :
    HookStmt hooks earlier (temps ++ more) stmt := by
  cases fine with
  | @read t ty offset new typed =>
    exact .read offset (Nat.le_trans fewer new) (Atom.ty?_append (a := .temp t) typed more)
  | @extend t op a ty new typed zeros narrow =>
    exact .extend (Nat.le_trans fewer new) (Atom.ty?_append (a := .temp t) typed more) zeros
      (Atom.ty?_append narrow more)
  | call known few typed =>
    exact .call known few fun word member => Atom.ty?_append (typed word member) more

namespace HookCode

theorem values_proper {values : List Computation} {given words : List Atom}
    (widens : WidensAll (temps ++ (pointerReads layout).map (·.ty)) given words values) :
    ∀ value ∈ pointerReads layout ++ values,
      value.Proper (temps ++ (pointerReads layout ++ values).map (·.ty)) := by
  intro value member
  rcases List.mem_append.1 member with pointer | late
  · rcases List.mem_cons.1 pointer with rfl | pointer
    · exact .read _ _
    · rw [List.mem_singleton.1 pointer]
      exact .read _ _
  · rw [List.map_append, ← List.append_assoc]
    exact widens.proper value late

theorem stmts (made : HookCode layout temps callee args code types) {hooks : Hooks}
    (known : callee = hooks.access ∨ callee = hooks.call) :
    ∀ stmt ∈ code, HookStmt hooks temps.length (temps ++ types) stmt := by
  cases made with
  | @mk words values few widens =>
    intro stmt member
    rcases List.mem_append.1 member with computed | called
    · obtain ⟨k, value, held, rfl⟩ := mem_assignments computed
      have proper := values_proper widens value (List.mem_of_getElem? held)
      have typed : (temps ++ (pointerReads layout ++ values).map (·.ty))[temps.length + k]? =
          some value.ty := by
        rw [List.getElem?_append_right (Nat.le_add_right _ _), Nat.add_sub_cancel_left,
          List.getElem?_map, held]
        rfl
      obtain ⟨ty, expr⟩ := value
      cases proper with
      | read offset => exact .read offset (Nat.le_add_right _ _) typed
      | extend zeros narrow => exact .extend (Nat.le_add_right _ _) typed zeros narrow
    · rw [List.mem_singleton.1 called]
      refine .call known few ?_
      rw [List.map_append, ← List.append_assoc]
      exact widens.ty?

theorem assigned (made : HookCode layout temps callee args code types) :
    Guest.assigned code = freshTemps temps.length types.length := by
  cases made with
  | mk few widens =>
    rw [assigned_append, assigned_assignments, List.length_map]
    exact List.append_nil _

theorem pointers_assigned {known : List Temp} :
    AssignedFirst known (assignments temps.length (pointerReads layout)) := by
  refine ⟨fun t used => ?_, fun t used => ?_, trivial⟩
  · exact absurd used List.not_mem_nil
  · exact absurd used List.not_mem_nil

theorem assignedFirst (made : HookCode layout temps callee args code types) {known : List Temp}
    (there : ∀ t sp fp, .temp t ∈ args sp fp → .temp t = sp ∨ .temp t = fp ∨ t ∈ known) :
    AssignedFirst known code := by
  cases made with
  | @mk words values few widens =>
    have reach : (temps ++ (pointerReads layout).map (·.ty)).length =
        temps.length + (pointerReads layout).length := by
      rw [List.length_append, List.length_map]
    have width : (temps ++ [layout.wordTy]).length = temps.length + 1 := by
      rw [List.length_append]
      rfl
    have own : ∀ t, .temp t ∈ args (nextTemp temps) (nextTemp (temps ++ [layout.wordTy])) →
        t ∈ known ++ freshTemps temps.length (pointerReads layout).length := by
      intro t member
      rcases there t _ _ member with same | same | old
      · cases same
        exact List.mem_append_right _ (mem_freshTemps.2 ⟨Nat.le_refl _, Nat.lt_add_of_pos_right
          (Nat.succ_pos 1)⟩)
      · cases same
        refine List.mem_append_right _ (mem_freshTemps.2 ?_)
        rw [width]
        exact ⟨Nat.le_succ _, Nat.lt_succ_self _⟩
      · exact List.mem_append_left _ old
    obtain ⟨early, passed⟩ := widens.assignedFirst own
    rw [reach] at early passed
    rw [List.append_assoc, freshTemps_append] at passed
    rw [assignedFirst_append, assignments_append, assignedFirst_append, assigned_append,
      assigned_assignments, assigned_assignments, freshTemps_append]
    refine ⟨⟨pointers_assigned, early⟩, fun t used => passed t ?_, trivial⟩
    have operands : (Stmt.call ⟨callee, none, words, none, none⟩).operands = words :=
      List.append_nil _
    rw [operands] at used
    exact used

/-- Run from any state, code for a hook passes on the zero-extended values of its arguments, where the
pointers are those of the state it started from. -/
theorem run (made : HookCode layout temps callee args code types) :
    ∃ computations words, code = computations ++ [.call ⟨callee, none, words, none, none⟩] ∧
      ∀ now : Valuation, ∃ later sp fp, now.run computations = some later ∧
        Valuation.Keeps temps.length now later ∧
        (args sp fp).map (later.word? (temps ++ types)) = (words.map later.atom).map some ∧
        later.word? (temps ++ types) sp =
          some (layout.wordTy.zeroExtend (now.slot layout.spOffset layout.wordTy)) ∧
        later.word? (temps ++ types) fp =
          some (layout.wordTy.zeroExtend (now.slot layout.fpOffset layout.wordTy)) := by
  cases made with
  | @mk words values few widens =>
    refine ⟨_, words, rfl, fun now => ?_⟩
    let sp := nextTemp temps
    let fp := nextTemp (temps ++ [layout.wordTy])
    let middle := (now.assign ⟨temps.length⟩ (now.slot layout.spOffset layout.wordTy)).assign
      ⟨temps.length + 1⟩ (now.slot layout.fpOffset layout.wordTy)
    -- The widenings are run after the reads, which leave the pointers in the first temporaries.
    have reach : (temps ++ (pointerReads layout).map (·.ty)).length =
        temps.length + (pointerReads layout).length := by
      rw [List.length_append, List.length_map]
    have width : (temps ++ [layout.wordTy]).length = temps.length + 1 := by
      rw [List.length_append]
      rfl
    have pointers : now.run (assignments temps.length (pointerReads layout)) = some middle := rfl
    have early : Valuation.Keeps temps.length now middle :=
      (Valuation.keeps_assign (Nat.le_refl _) _).trans (Valuation.keeps_assign (Nat.le_succ _) _)
    obtain ⟨later, ran, kept, passed⟩ := widens.run middle
    rw [List.map_append, ← List.append_assoc]
    have spTyped : sp.ty? (temps ++ (pointerReads layout).map (·.ty)) = some layout.wordTy :=
      ty?_nextTemp temps _ _
    have fpTyped : fp.ty? (temps ++ (pointerReads layout).map (·.ty)) = some layout.wordTy := by
      have typed := ty?_nextTemp (temps ++ [layout.wordTy]) layout.wordTy []
      rw [List.append_assoc] at typed
      exact typed
    have spHeld : middle.atom sp = now.slot layout.spOffset layout.wordTy := by
      have apart : (⟨temps.length⟩ : Temp) ≠ ⟨temps.length + 1⟩ :=
        fun same => Nat.ne_of_lt (Nat.lt_succ_self _) (Temp.mk.inj same)
      exact (if_neg apart).trans (if_pos rfl)
    have fpHeld : middle.atom fp = now.slot layout.fpOffset layout.wordTy := by
      show middle.temp ⟨(temps ++ [layout.wordTy]).length⟩ = _
      rw [width]
      exact if_pos rfl
    have lower : temps.length ≤ (temps ++ (pointerReads layout).map (·.ty)).length := by
      rw [reach]
      exact Nat.le_add_right _ _
    refine ⟨later, sp, fp, ?_, early.trans (kept.mono lower), passed, ?_, ?_⟩
    · rw [assignments_append, Valuation.run_append, pointers, ← reach]
      exact ran
    · unfold Valuation.word?
      rw [Atom.ty?_append spTyped, kept.atom spTyped, spHeld]
      rfl
    · unfold Valuation.word?
      rw [Atom.ty?_append fpTyped, kept.atom fpTyped, fpHeld]
      rfl

end HookCode

end Overrun
