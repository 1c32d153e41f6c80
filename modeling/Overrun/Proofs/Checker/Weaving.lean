import Overrun.Proofs.Checker.HookCode
import Overrun.Proofs.Checker.Known

/-! An instrumented block is its source with code for the hooks in between. Which statements it stands
before, and what it passes on there, follows from the statements so far: an instruction is watched up to
its first memory reference. -/

namespace Overrun

open Guest

/-- A statement of a block, and the code that was inserted before it. -/
structure Woven where
  inserted : List Stmt
  stmt : Stmt
  deriving DecidableEq, Repr

def Woven.code (s : Woven) : List Stmt :=
  s.inserted ++ [s.stmt]

structure Weave where
  steps : List Woven
  last : List Stmt
  deriving DecidableEq, Repr

namespace Weave

def original (w : Weave) : List Stmt :=
  w.steps.map (·.stmt)

def inserted (w : Weave) : List Stmt :=
  w.steps.flatMap (·.inserted) ++ w.last

def whole (w : Weave) : List Stmt :=
  w.steps.flatMap Woven.code ++ w.last

end Weave

theorem perm_flatMap_code (steps : List Woven) :
    (steps.flatMap Woven.code).Perm (steps.map (·.stmt) ++ steps.flatMap (·.inserted)) := by
  induction steps with
  | nil => exact .nil
  | cons s rest ih =>
    rw [List.flatMap_cons, List.flatMap_cons, List.map_cons, Woven.code, List.append_assoc]
    exact List.perm_middle.trans (.cons s.stmt
      ((ih.append_left s.inserted).trans (List.perm_append_comm_assoc _ _ _)))

theorem Weave.perm_whole (w : Weave) : w.whole.Perm (w.original ++ w.inserted) := by
  unfold whole original inserted
  rw [← List.append_assoc]
  exact (perm_flatMap_code w.steps).append_right w.last

/-- How a statement touches guest memory, if it does. -/
inductive Guest.SuperBlock.Touches (block : SuperBlock) : Stmt → MemoryRef → Prop where
  | load (t : Temp) (endian : Endian) (ty : Ty) (addr : Atom) :
      Touches block (.assign t (.load endian ty addr)) ⟨addr, ty.size, .read⟩
  | store (endian : Endian) (addr : Atom) {data : Atom} {ty : Ty}
      (typed : block.atomTy data = .ok ty) :
      Touches block (.store endian addr data) ⟨addr, ty.size, .write⟩
  | swap {s : CompareSwap} {ty : Ty} (typed : block.atomTy s.expected = .ok ty) :
      Touches block (.swap s) ⟨s.addr, ty.size, .read⟩
  | reads {call : HelperCall} {addr : Atom} {size : UInt32}
      (effect : call.effect = some ⟨.read, addr, size⟩) :
      Touches block (.call call) ⟨addr, size, .read⟩
  | writes {call : HelperCall} {kind : EffectKind} {addr : Atom} {size : UInt32}
      (changes : kind ≠ .read) (effect : call.effect = some ⟨kind, addr, size⟩) :
      Touches block (.call call) ⟨addr, size, .write⟩

theorem touches_of_memoryRef? {block : SuperBlock} {stmt : Stmt} {ref : MemoryRef}
    (found : memoryRef? block stmt = .ok (some ref)) : block.Touches stmt ref := by
  unfold memoryRef? at found
  split at found
  · cases found
    exact .load _ _ _ _
  · obtain ⟨ty, typed, same⟩ := bind_eq_ok.1 found
    cases same
    exact .store _ _ typed
  · obtain ⟨ty, typed, same⟩ := bind_eq_ok.1 found
    cases same
    exact .swap typed
  · next call =>
    obtain ⟨⟨kind, addr, size⟩, effect, same⟩ :=
      Option.map_eq_some_iff.1 (Except.ok.inj found)
    cases kind <;> cases same
    · exact .reads effect
    · exact .writes (by decide) effect
    · exact .writes (by decide) effect
  · cases found

theorem memoryRef?_of_touches {block : SuperBlock} {stmt : Stmt} {ref : MemoryRef}
    (touches : block.Touches stmt ref) : memoryRef? block stmt = .ok (some ref) := by
  cases touches with
  | load => rfl
  | store _ _ typed | swap typed =>
    unfold memoryRef?
    dsimp only
    rw [typed]
    rfl
  | reads effect =>
    unfold memoryRef?
    dsimp only
    rw [effect]
    rfl
  | @writes call kind addr size changes effect =>
    unfold memoryRef?
    dsimp only
    rw [effect]
    cases kind <;> first | rfl | contradiction

theorem referencesMemory_of_memoryRef? {block : SuperBlock} {stmt : Stmt}
    (found : memoryRef? block stmt = .ok none) : stmt.referencesMemory = false := by
  unfold memoryRef? at found
  split at found
  · cases found
  · obtain ⟨ty, -, absurd⟩ := bind_eq_ok.1 found
    cases absurd
  · obtain ⟨ty, -, absurd⟩ := bind_eq_ok.1 found
    cases absurd
  · next call =>
    have effect := Option.map_eq_none_iff.1 (Except.ok.inj found)
    unfold Stmt.referencesMemory
    dsimp only
    rw [effect]
    rfl
  · next noLoad noStore noSwap noCall =>
    cases stmt with
    | assign t e =>
      cases e with
      | load => exact absurd rfl (noLoad _ _ _ _)
      | _ => rfl
    | store => exact absurd rfl (noStore _ _ _)
    | swap => exact absurd rfl (noSwap _)
    | call => exact absurd rfl (noCall _)
    | _ => rfl

namespace Guest.SuperBlock.Touches

variable {block : SuperBlock} {stmt : Stmt} {ref : MemoryRef}

theorem referencesMemory (touches : block.Touches stmt ref) : stmt.referencesMemory = true := by
  cases touches with
  | reads effect | writes _ effect =>
    unfold Stmt.referencesMemory
    dsimp only
    rw [effect]
    rfl
  | _ => rfl

theorem addr_mem (touches : block.Touches stmt ref) : ref.addr ∈ stmt.operands := by
  cases touches with
  | load | store | swap => exact List.mem_cons_self
  | reads effect | writes _ effect =>
    unfold Stmt.operands
    dsimp only
    rw [effect]
    exact List.mem_append_right _ List.mem_cons_self

end Guest.SuperBlock.Touches

theorem eq_mark_of_mark? {stmt : Stmt} {mark : SuperBlock.Mark}
    (found : SuperBlock.mark? stmt = some mark) :
    stmt = .mark mark.address mark.length mark.delta := by
  cases stmt <;> cases found
  rfl

theorem isMark_of_mark?_eq_none {stmt : Stmt} (other : SuperBlock.mark? stmt = none) :
    stmt.isMark = false := by
  cases stmt <;> first | rfl | contradiction

/-- Whether statements have come to the instruction at `address`, and it has not touched memory yet. -/
def Untouched (earlier : List Stmt) (address : UInt64) : Prop :=
  ∃ before length delta since, earlier = before ++ .mark address length delta :: since ∧
    ∀ stmt ∈ since, stmt.isMark = false ∧ stmt.referencesMemory = false

section Untouched

variable {earlier : List Stmt} {stmt : Stmt} {address other : UInt64}

theorem untouched_mark {length : UInt32} {delta : UInt8} :
    Untouched (earlier ++ [.mark address length delta]) other ↔ other = address := by
  constructor
  · rintro ⟨before, length, delta, since, same, quiet⟩
    rcases List.eq_nil_or_concat since with rfl | ⟨init, last, rfl⟩
    · cases (List.append_inj' same rfl).2
      rfl
    · rw [List.concat_eq_append] at same quiet
      rw [← List.cons_append, ← List.append_assoc] at same
      cases (List.append_inj' same rfl).2
      have plain := (quiet _ (List.mem_append_right _ List.mem_cons_self)).1
      contradiction
  · rintro rfl
    exact ⟨earlier, length, delta, [], rfl, fun _ absurd => by contradiction⟩

theorem untouched_append (plain : stmt.isMark = false) :
    Untouched (earlier ++ [stmt]) address ↔
      stmt.referencesMemory = false ∧ Untouched earlier address := by
  constructor
  · rintro ⟨before, length, delta, since, same, quiet⟩
    rcases List.eq_nil_or_concat since with rfl | ⟨init, last, rfl⟩
    · cases (List.append_inj' same rfl).2
      contradiction
    · rw [List.concat_eq_append] at same quiet
      rw [← List.cons_append, ← List.append_assoc] at same
      obtain ⟨front, back⟩ := List.append_inj' same rfl
      cases back
      exact ⟨(quiet _ (List.mem_append_right _ List.mem_cons_self)).2, before, length, delta, init,
        front, fun s member => quiet s (List.mem_append_left _ member)⟩
  · rintro ⟨idle, before, length, delta, since, rfl, quiet⟩
    refine ⟨before, length, delta, since ++ [stmt], ?_, fun s member => ?_⟩
    · rw [List.append_assoc, List.cons_append]
    · rcases List.mem_append.1 member with old | new
      · exact quiet s old
      · rw [List.mem_singleton.1 new]
        exact ⟨plain, idle⟩

end Untouched

namespace Checker

variable {c after : Checker} {env : Environment} {source out : SuperBlock} {layout : Layout}
  {hook : Callee}

/-- What is inserted before a statement, where those `earlier` have been copied and there are `temps`:
nothing, or code for the hook of a memory reference. -/
inductive Inserts (env : Environment) (source : SuperBlock) (layout : Layout) (hook : Callee)
    (c : Checker) (earlier : List Stmt) (temps : List Ty) (stmt : Stmt) :
    List Stmt → List Ty → Prop where
  | nothing (unneeded : stmt.referencesMemory = true → ∀ address, Untouched earlier address →
      c.isSuppressed env layout address = true) :
      Inserts env source layout hook c earlier temps stmt [] []
  | hook {address : UInt64} {ref : MemoryRef} {vector : VectorRef} {code : List Stmt}
      {types : List Ty} (first : Untouched earlier address) (there : address ≠ 0)
      (watched : c.isSuppressed env layout address = false) (touches : source.Touches stmt ref)
      (known : c.vectors.lookup address = some vector)
      (made : HookCode layout temps hook (accessArgs ref address vector) code types) :
      Inserts env source layout hook c earlier temps stmt code types

inductive Closes (source : SuperBlock) (layout : Layout) (hook : Callee) (c : Checker)
    (temps : List Ty) : List Stmt → List Ty → Prop where
  | nothing (plain : source.endsInCall = false) : Closes source layout hook c temps [] []
  | hook {mark : SuperBlock.Mark} {vector : VectorRef} {code : List Stmt} {types : List Ty}
      (ends : source.endsInCall = true) (final : source.lastMark? = some mark)
      (known : c.vectors.lookup mark.address = some vector)
      (made : HookCode layout temps hook (callArgs (mark.address + mark.length.toUInt64) vector
        (spAdjust layout c.target.architecture)) code types) :
      Closes source layout hook c temps code types

inductive Weaves (env : Environment) (source : SuperBlock) (layout : Layout) (hook : Callee)
    (c : Checker) : List Woven → List Ty → Prop where
  | nothing : Weaves env source layout hook c [] []
  | step {steps : List Woven} {types more : List Ty} {code : List Stmt} {stmt : Stmt}
      (before : Weaves env source layout hook c steps types)
      (inserts : Inserts env source layout hook c (steps.map (·.stmt)) (source.temps ++ types) stmt
        code more) :
      Weaves env source layout hook c (steps ++ [⟨code, stmt⟩]) (types ++ more)

theorem Consulted.isSuppressed (consulted : Consulted c after) (env : Environment)
    (layout : Layout) (address : UInt64) :
    after.isSuppressed env layout address = c.isSuppressed env layout address := by
  unfold Consulted at consulted
  rw [consulted]
  rfl

theorem Weaves.retained {steps : List Woven} {types : List Ty}
    (weaves : Weaves env source layout hook c steps types) (found : LookedUp env c after) :
    Weaves env source layout hook after steps types := by
  induction weaves with
  | nothing => exact .nothing
  | step before inserts ih =>
    refine ih.step ?_
    cases inserts with
    | nothing unneeded =>
      refine .nothing fun touches address first => ?_
      rw [found.consulted.isSuppressed]
      exact unneeded touches address first
    | hook first there watched touches known made =>
      refine .hook first there ?_ touches (found.retained.known _ _ known) made
      rw [found.consulted.isSuppressed]
      exact watched

namespace Copying

variable {p q : Copying} {steps : List Woven} {types : List Ty} {earlier : List Stmt} {stmt : Stmt}

/-- Whether a copy knows which instruction some statements have come to, and whether it has touched memory
yet. -/
structure Tracks (env : Environment) (layout : Layout) (earlier : List Stmt) (p : Copying) :
    Prop where
  waiting : ∀ address, Untouched earlier address ↔
    ∃ current, p.current = some current ∧ current.referenced = false ∧ current.address = address
  there : ∀ current, p.current = some current → current.address ≠ 0
  known : ∀ current, p.current = some current →
    p.checker.vectors.lookup current.address = some current.vector
  suppressed : ∀ current, p.current = some current →
    current.suppressed = p.checker.isSuppressed env layout current.address

theorem tracks_start (c : Checker) (b : Builder) (events : List Event) :
    Tracks env layout [] ⟨c, b, none, events⟩ := by
  refine ⟨fun address => ⟨?_, ?_⟩, fun _ absurd => by contradiction, fun _ absurd => by contradiction,
    fun _ absurd => by contradiction⟩
  · rintro ⟨before, length, delta, since, absurd, -⟩
    cases before <;> contradiction
  · rintro ⟨current, absurd, -⟩
    contradiction

theorem tracks_enter (laidOut : p.builder.layout = layout) {address : UInt64} {length : UInt32}
    {delta : UInt8} (there : address ≠ 0) :
    Tracks env layout (earlier ++ [.mark address length delta])
      ((p.enter env address).push (.mark address length delta)) where
  waiting other := by
    rw [untouched_mark]
    constructor
    · rintro rfl
      exact ⟨_, rfl, rfl, rfl⟩
    · rintro ⟨current, same, -, rfl⟩
      cases same
      rfl
  there current same := by
    cases same
    exact there
  known current same := by
    cases same
    exact (vectorAt_lookup env p.checker address address).trans (if_pos rfl)
  suppressed current same := by
    cases same
    exact congrArg (fun l => isSuppressed env _ l address) laidOut

theorem Tracks.idle (tracks : Tracks env layout earlier p) (plain : stmt.isMark = false)
    (idle : stmt.referencesMemory = false) :
    Tracks env layout (earlier ++ [stmt]) (p.push stmt) :=
  { tracks with
    waiting := fun address => by
      rw [untouched_append plain, tracks.waiting]
      exact ⟨And.right, fun waiting => ⟨idle, waiting⟩⟩ }

theorem Tracks.touched (tracks : Tracks env layout earlier p) (plain : stmt.isMark = false)
    (touches : stmt.referencesMemory = true) {current : CurrentInstruction}
    (here : p.current = some current) (b : Builder) :
    Tracks env layout (earlier ++ [stmt])
      { p with builder := b, current := some { current with referenced := true } } where
  waiting address := by
    rw [untouched_append plain, touches]
    constructor
    · rintro ⟨absurd, -⟩
      contradiction
    · rintro ⟨later, same, absurd, -⟩
      cases same
      contradiction
  there later same := by
    cases same
    exact tracks.there current here
  known later same := by
    cases same
    exact tracks.known current here
  suppressed later same := by
    cases same
    exact tracks.suppressed current here

/-- What comes of a memory reference that is met: its hook is called if it is the first of an instruction
that is watched. -/
theorem meet_ok (tracks : Tracks env layout earlier p) (laidOut : p.builder.layout = layout)
    (plain : stmt.isMark = false) {ref : MemoryRef} (touches : source.Touches stmt ref) {index : Nat}
    (done : p.meet hook index ref = .ok (.ok (), q)) :
    ∃ code more, Inserts env source layout hook p.checker earlier p.builder.block.temps stmt code
        more ∧
      q.builder = p.builder.extend code more ∧ Tracks env layout (earlier ++ [stmt]) (q.push stmt) := by
  have references := touches.referencesMemory
  -- What the copy knows of its instruction decides whether an earlier statement touched memory.
  have waits : ∀ {current}, p.current = some current → ∀ address, Untouched earlier address →
      current.referenced = false ∧ current.address = address := by
    intro current here address first
    obtain ⟨other, same, fresh, rfl⟩ := (tracks.waiting address).1 first
    cases here.symm.trans same
    exact ⟨fresh, rfl⟩
  generalize result : (Except.ok () : Except InstrumentError Unit) = r at done
  cases meet_eq_ok_iff.1 done with
  | unmarked => contradiction
  | @again current here referenced =>
    refine ⟨[], [], .nothing fun _ address first => ?_, (Builder.extend_nil _).symm, ?_⟩
    · rw [(waits here address first).1] at referenced
      contradiction
    · have same : current = { current with referenced := true } := by
        rw [← referenced]
      have kept := tracks.touched plain references here (p.builder.push stmt)
      rw [← same, ← here] at kept
      exact kept
  | @silent current here fresh silent =>
    refine ⟨[], [], .nothing fun _ address first => ?_, (Builder.extend_nil _).symm,
      tracks.touched plain references here _⟩
    rw [← (waits here address first).2, ← tracks.suppressed current here]
    exact silent
  | @watched current inserted b here fresh watched inserting =>
    cases inserted with
    | error e => contradiction
    | ok =>
      obtain ⟨code, more, made, rfl⟩ := insertAccessHook_ok inserting
      rw [laidOut] at made
      have first : Untouched earlier current.address :=
        (tracks.waiting _).2 ⟨current, here, fresh, rfl⟩
      exact ⟨code, more, .hook first (tracks.there current here)
        ((tracks.suppressed current here).symm.trans watched) touches
        (tracks.known current here) made, rfl, tracks.touched plain references here _⟩

structure Copied (env : Environment) (source : SuperBlock) (layout : Layout) (hook : Callee)
    (steps : List Woven) (types : List Ty) (p : Copying) : Prop where
  weaves : Weaves env source layout hook p.checker steps types
  builder : p.builder = (Builder.ofTemplate source layout).extend (steps.flatMap Woven.code) types
  tracks : Tracks env layout (steps.map (·.stmt)) p

theorem copied_start (c : Checker) :
    Copied env source layout hook [] [] ⟨c, .ofTemplate source layout, none, []⟩ :=
  ⟨.nothing, (Builder.extend_nil _).symm, tracks_start c _ _⟩

theorem Copied.laidOut (copied : Copied env source layout hook steps types p) :
    p.builder.layout = layout := by
  rw [copied.builder]
  rfl

theorem Copied.temps (copied : Copied env source layout hook steps types p) :
    p.builder.block.temps = source.temps ++ types := by
  rw [copied.builder]
  rfl

theorem Copied.step (copied : Copied env source layout hook steps types p) {code : List Stmt}
    {more : List Ty} (found : LookedUp env p.checker q.checker)
    (inserts : Inserts env source layout hook q.checker (steps.map (·.stmt))
      (source.temps ++ types) stmt code more)
    (built : q.builder = (p.builder.extend code more).push stmt)
    (tracks : Tracks env layout (steps.map (·.stmt) ++ [stmt]) q) :
    Copied env source layout hook (steps ++ [⟨code, stmt⟩]) (types ++ more) q where
  weaves := (copied.weaves.retained found).step inserts
  builder := by
    rw [built, copied.builder, Builder.push_eq, Builder.extend_extend, Builder.extend_extend,
      List.append_nil, List.flatMap_append, List.flatMap_singleton]
    rfl
  tracks := by
    rw [List.map_append]
    exact tracks

theorem Copied.copy (copied : Copied env source layout hook steps types p) {index : Nat}
    (done : p.copy env source hook index stmt = .ok (.ok (), q)) :
    ∃ code more, Copied env source layout hook (steps ++ [⟨code, stmt⟩]) (types ++ more) q := by
  have found := copy_lookedUp done
  have alone : p.builder.push stmt = (p.builder.extend [] []).push stmt := by
    rw [Builder.extend_nil]
  cases copy_eq_ok_iff.1 done with
  | enter marked there =>
    cases eq_mark_of_mark? marked
    exact ⟨[], [], copied.step found (.nothing fun absurd => by contradiction) alone
      (tracks_enter copied.laidOut there)⟩
  | idle unmarked referring =>
    have idle := referencesMemory_of_memoryRef? referring
    refine ⟨[], [], copied.step found (.nothing fun absurd => ?_) alone
      (copied.tracks.idle (isMark_of_mark?_eq_none unmarked) idle)⟩
    rw [idle] at absurd
    contradiction
  | reference unmarked referring meeting =>
    have kept := (meet_frame meeting).1
    obtain ⟨code, more, inserts, built, tracks⟩ := meet_ok copied.tracks copied.laidOut
      (isMark_of_mark?_eq_none unmarked) (touches_of_memoryRef? referring) meeting
    rw [copied.temps, ← kept] at inserts
    exact ⟨code, more, copied.step found inserts (congrArg (·.push stmt) built) tracks⟩

theorem Copied.copyAll (copied : Copied env source layout hook steps types p) {index : Nat}
    {stmts : List Stmt} (done : p.copyAll env source hook index stmts = .ok (.ok (), q)) :
    ∃ further more, further.map (·.stmt) = stmts ∧
      Copied env source layout hook (steps ++ further) (types ++ more) q := by
  induction stmts generalizing p index steps types with
  | nil =>
    obtain ⟨-, rfl⟩ := copyAll_nil_eq_ok_iff.1 done
    refine ⟨[], [], rfl, ?_⟩
    rw [List.append_nil, List.append_nil]
    exact copied
  | cons stmt rest ih =>
    rcases copyAll_cons_eq_ok_iff.1 done with ⟨e, -, absurd⟩ | ⟨middle, copying, onward⟩
    · contradiction
    · obtain ⟨code, early, next⟩ := copied.copy copying
      obtain ⟨further, late, same, last⟩ := ih next onward
      refine ⟨⟨code, stmt⟩ :: further, early ++ late, congrArg _ same, ?_⟩
      rw [List.append_assoc, List.append_assoc] at last
      exact last

theorem close_ok (laidOut : p.builder.layout = layout)
    (done : p.close env source hook = .ok (.ok (), q)) :
    ∃ code more, Closes source layout hook q.checker p.builder.block.temps code more ∧
      q.builder = p.builder.extend code more := by
  generalize result : (Except.ok () : Except InstrumentError Unit) = r at done
  cases close_eq_ok_iff.1 done with
  | plain plain => exact ⟨[], [], .nothing plain, (Builder.extend_nil _).symm⟩
  | unmarked => contradiction
  | @call mark found inserted b ends final lookup inserting =>
    cases inserted with
    | error e => contradiction
    | ok =>
      subst lookup
      obtain ⟨code, more, made, rfl⟩ := insertCallHook_ok inserting
      rw [laidOut] at made
      refine ⟨code, more, .hook ends final ?_ made, rfl⟩
      exact (vectorAt_lookup env p.checker mark.address mark.address).trans (if_pos rfl)

end Copying

/-- An instrumented block is woven of its source and of code for the hooks. -/
theorem instrument_weaves {hooks : Hooks} {o : Outcome (Except InstrumentError SuperBlock)}
    (done : c.instrument env source layout hooks = .ok o) (made : o.value = .ok out) :
    ∃ (w : Weave) (types more : List Ty), w.original = source.stmts ∧
      Weaves env source layout hooks.access o.checker w.steps types ∧
      Closes source layout hooks.call o.checker (source.temps ++ types) w.last more ∧
      out = { source with temps := source.temps ++ types ++ more, stmts := w.whole } := by
  cases instrument_eq_ok_iff.1 done with
  | foreign | refused | unclosed => contradiction
  | @made p q _ copying closing =>
    cases made
    obtain ⟨steps, types, same, copied⟩ := (Copying.copied_start c).copyAll copying
    rw [List.nil_append, List.nil_append] at copied
    obtain ⟨last, more, closes, built⟩ := Copying.close_ok copied.laidOut closing
    rw [copied.builder] at closes
    refine ⟨⟨steps, last⟩, types, more, same,
      copied.weaves.retained (Copying.close_lookedUp closing), closes, ?_⟩
    rw [built, copied.builder, Builder.extend_extend, List.append_assoc]
    rfl

end Checker

end Overrun
