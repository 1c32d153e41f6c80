import Overrun.Proofs.Checker.Harmless
import Overrun.Proofs.Guest.Refusing

/-! Which blocks can't be instrumented, and for what each is refused: the first thing that is wrong with
it. What is wrong with a statement is said of the statements before it, not of how they were copied. -/

namespace Overrun

open Guest

theorem Guest.SuperBlock.Touches.eq {block : SuperBlock} {stmt : Stmt} {ref other : MemoryRef}
    (one : block.Touches stmt ref) (two : block.Touches stmt other) : ref = other :=
  Option.some.inj (Except.ok.inj ((memoryRef?_of_touches one).symm.trans (memoryRef?_of_touches two)))

theorem exists_atomTy {block : SuperBlock} {stmt : Stmt}
    (declared : ∀ t, .temp t ∈ stmt.operands → t.index < block.temps.length) {a : Atom}
    (used : a ∈ stmt.operands) : ∃ ty, block.atomTy a = .ok ty := by
  cases a with
  | const c => exact ⟨c.ty, rfl⟩
  | temp t =>
    have held := List.getElem?_eq_getElem (declared t used)
    exact ⟨_, SuperBlock.tempTy_eq_ok_iff.2 held⟩

theorem exists_memoryRef? {block : SuperBlock} {stmt : Stmt}
    (declared : ∀ t, .temp t ∈ stmt.operands → t.index < block.temps.length) :
    ∃ found, memoryRef? block stmt = .ok found := by
  unfold memoryRef?
  split
  · exact ⟨_, rfl⟩
  · next addr data =>
    obtain ⟨ty, known⟩ := exists_atomTy (a := data) declared
      (List.mem_cons_of_mem _ List.mem_cons_self)
    exact ⟨_, bind_eq_ok.2 ⟨ty, known, rfl⟩⟩
  · next s =>
    obtain ⟨ty, known⟩ := exists_atomTy (a := s.expected) declared
      (List.mem_cons_of_mem _ List.mem_cons_self)
    exact ⟨_, bind_eq_ok.2 ⟨ty, known, rfl⟩⟩
  · exact ⟨_, rfl⟩
  · exact ⟨_, rfl⟩

theorem Untouched.exists_mark {earlier : List Stmt} {address : UInt64}
    (untouched : Untouched earlier address) : ∃ stmt ∈ earlier, stmt.isMark = true := by
  obtain ⟨before, length, delta, since, rfl, -⟩ := untouched
  exact ⟨_, List.mem_append_right _ List.mem_cons_self, rfl⟩

section Hooks

variable {b : Builder}

theorem Guest.Layout.isHostWord_wordTy (layout : Layout) : layout.wordTy.isHostWord = true := by
  unfold Layout.wordTy
  split <;> rfl

theorem fits_pointers (b : Builder) :
    (nextTemp b.block.temps).Fits (b.compute (pointerReads b.layout)).block.temps ∧
      (nextTemp (b.block.temps ++ [b.layout.wordTy])).Fits
        (b.compute (pointerReads b.layout)).block.temps := by
  have word := b.layout.isHostWord_wordTy
  have fp := ty?_nextTemp (b.block.temps ++ [b.layout.wordTy]) b.layout.wordTy []
  rw [List.append_assoc] at fp
  exact ⟨⟨_, ty?_nextTemp b.block.temps _ _, word⟩, ⟨_, fp, word⟩⟩

theorem length_accessArgs_le (ref : MemoryRef) (instruction : UInt64) (vector : VectorRef)
    (sp fp : Atom) : (accessArgs ref instruction vector sp fp).length ≤ maxHelperArgs :=
  Nat.le_refl 6

theorem fits_accessArgs {temps : List Ty} {sp fp : Atom} (ref : MemoryRef) (instruction : UInt64)
    (vector : VectorRef) (spFits : sp.Fits temps) (fpFits : fp.Fits temps) :
    ∀ a ∈ (accessArgs ref instruction vector sp fp).tail, a.Fits temps := by
  intro a member
  simp only [accessArgs, List.tail_cons, List.mem_cons, List.not_mem_nil, or_false] at member
  rcases member with rfl | rfl | rfl | rfl | rfl
  · exact spFits
  · exact fpFits
  · exact fits_word temps _
  · exact fits_word temps _
  · exact fits_word temps _

theorem insertAccessHook_of_fits (hook : Callee) {ref : MemoryRef} (fits : ref.addr.Fits b.block.temps)
    (instruction : UInt64) (vector : VectorRef) :
    ∃ after, insertAccessHook b hook ref instruction vector = .ok (.ok (), after) := by
  obtain ⟨spFits, fpFits⟩ := fits_pointers b
  have few := length_accessArgs_le ref instruction vector (nextTemp b.block.temps)
    (nextTemp (b.block.temps ++ [b.layout.wordTy]))
  rw [insertAccessHook_eq]
  obtain ⟨words, values, -, done⟩ := Builder.callHelper_of_fits few (List.forall_mem_cons.2
    ⟨fits.append _, fits_accessArgs ref instruction vector spFits fpFits⟩)
  exact ⟨_, done⟩

theorem insertAccessHook_of_unfit (hook : Callee) {ref : MemoryRef} {ty : Ty}
    (typed : ref.addr.ty? b.block.temps = some ty) (unfit : ty.isHostWord = false)
    (instruction : UInt64) (vector : VectorRef) :
    ∃ after, insertAccessHook b hook ref instruction vector =
      .ok (.error (.notHostWord ty), after) := by
  have few := length_accessArgs_le ref instruction vector (nextTemp b.block.temps)
    (nextTemp (b.block.temps ++ [b.layout.wordTy]))
  rw [insertAccessHook_eq]
  have none : ∀ a ∈ ([] : List Atom), a.Fits (b.compute (pointerReads b.layout)).block.temps :=
    fun _ absurd => by contradiction
  obtain ⟨words, values, -, done⟩ :=
    Builder.callHelper_of_unfit none (Atom.ty?_append typed _) unfit few
  exact ⟨_, done⟩

theorem exists_insertCallHook (b : Builder) (hook : Callee) (returnAddress : UInt64)
    (vector : VectorRef) (adjust : UInt64) :
    ∃ after, insertCallHook b hook returnAddress vector adjust = .ok (.ok (), after) := by
  obtain ⟨spFits, fpFits⟩ := fits_pointers b
  have fits : ∀ a ∈ callArgs returnAddress vector adjust (nextTemp b.block.temps)
      (nextTemp (b.block.temps ++ [b.layout.wordTy])),
      a.Fits (b.compute (pointerReads b.layout)).block.temps := by
    intro a member
    simp only [callArgs, List.mem_cons, List.not_mem_nil, or_false] at member
    rcases member with rfl | rfl | rfl | rfl | rfl
    · exact spFits
    · exact fpFits
    · exact fits_word _ _
    · exact fits_word _ _
    · exact fits_word _ _
  have few : (callArgs returnAddress vector adjust (nextTemp b.block.temps)
      (nextTemp (b.block.temps ++ [b.layout.wordTy]))).length ≤ maxHelperArgs := Nat.le_succ 5
  rw [insertCallHook_eq]
  obtain ⟨words, values, -, done⟩ := Builder.callHelper_of_fits few fits
  exact ⟨_, done⟩

end Hooks

namespace Checker

/-- What a statement is refused for that has some others before it. -/
inductive Refuses (env : Environment) (c : Checker) (source : SuperBlock) (layout : Layout)
    (earlier : List Stmt) : Stmt → InstrumentError → Prop where
  | zero (length : UInt32) (delta : UInt8) :
      Refuses env c source layout earlier (.mark 0 length delta) (.zeroAddress 0)
  | unmarked {stmt : Stmt} (references : stmt.referencesMemory = true)
      (none : ∀ other ∈ earlier, other.isMark = false) :
      Refuses env c source layout earlier stmt (.accessBeforeMark earlier.length)
  | unfit {stmt : Stmt} {ref : MemoryRef} {address : UInt64} {ty : Ty}
      (first : Untouched earlier address) (watched : c.isSuppressed env layout address = false)
      (touches : source.Touches stmt ref) (typed : source.atomTy ref.addr = .ok ty)
      (unfit : ty.isHostWord = false) :
      Refuses env c source layout earlier stmt (.build (.notHostWord ty))

def RefusedAt (env : Environment) (c : Checker) (source : SuperBlock) (layout : Layout) (i : Nat)
    (e : InstrumentError) : Prop :=
  ∃ stmt, source.stmts[i]? = some stmt ∧ Refuses env c source layout (source.stmts.take i) stmt e

/-- What a block is refused for: it is for another machine, or one of its statements is refused, or else
it ends in a call of no instruction. -/
inductive Fails (env : Environment) (c : Checker) (source : SuperBlock) (layout : Layout) :
    InstrumentError → Prop where
  | architecture (apart : layout.architecture ≠ c.target.architecture) :
      Fails env c source layout (.architectureMismatch layout.architecture c.target.architecture)
  | stmt {i : Nat} {e : InstrumentError} (fitting : layout.architecture = c.target.architecture)
      (refused : RefusedAt env c source layout i e)
      (first : ∀ j < i, ∀ other, ¬RefusedAt env c source layout j other) :
      Fails env c source layout e
  | call (fitting : layout.architecture = c.target.architecture)
      (fine : ∀ i e, ¬RefusedAt env c source layout i e) (ends : source.endsInCall = true)
      (none : ∀ stmt ∈ source.stmts, stmt.isMark = false) :
      Fails env c source layout .callWithoutMark

variable {env : Environment} {c after : Checker} {source : SuperBlock} {layout : Layout}
  {hook : Callee} {hooks : Hooks} {earlier rest : List Stmt} {stmt : Stmt} {e other : InstrumentError}

theorem Refuses.unique (one : Refuses env c source layout earlier stmt e)
    (two : Refuses env c source layout earlier stmt other) : e = other := by
  cases one with
  | zero =>
    cases two with
    | zero => rfl
    | unmarked references => contradiction
    | unfit _ _ touches => cases touches
  | unmarked references none =>
    cases two with
    | zero => contradiction
    | unmarked => rfl
    | unfit first =>
      obtain ⟨mark, member, marks⟩ := first.exists_mark
      rw [none mark member] at marks
      contradiction
  | unfit first watched touches typed =>
    cases two with
    | zero => cases touches
    | unmarked _ none =>
      obtain ⟨mark, member, marks⟩ := first.exists_mark
      rw [none mark member] at marks
      contradiction
    | unfit _ _ also known =>
      cases touches.eq also
      cases typed.symm.trans known
      rfl

theorem RefusedAt.unique {i : Nat} (one : RefusedAt env c source layout i e)
    (two : RefusedAt env c source layout i other) : e = other := by
  obtain ⟨stmt, there, refuses⟩ := one
  obtain ⟨same, also, refusesToo⟩ := two
  cases there.symm.trans also
  exact refuses.unique refusesToo

/-- A block is refused for one thing only. -/
theorem Fails.unique (one : Fails env c source layout e) (two : Fails env c source layout other) :
    e = other := by
  cases one with
  | architecture apart =>
    cases two with
    | architecture => rfl
    | stmt fitting => exact absurd fitting apart
    | call fitting => exact absurd fitting apart
  | @stmt i _ fitting refused first =>
    cases two with
    | architecture apart => exact absurd fitting apart
    | @stmt j _ _ also firstToo =>
      rcases Nat.lt_trichotomy i j with before | rfl | behind
      · exact absurd refused (firstToo i before e)
      · exact refused.unique also
      · exact absurd also (first j behind other)
    | call _ fine => exact absurd refused (fine i e)
  | call fitting fine =>
    cases two with
    | architecture apart => exact absurd fitting apart
    | @stmt j _ _ also => exact absurd also (fine j other)
    | call => rfl

theorem Consulted.refuses (consulted : Consulted c after) :
    Refuses env after source layout earlier stmt e ↔ Refuses env c source layout earlier stmt e := by
  have same := consulted.isSuppressed env layout
  constructor
  · intro refuses
    cases refuses with
    | zero => exact .zero _ _
    | unmarked references none => exact .unmarked references none
    | unfit first watched => exact .unfit first ((same _).symm.trans watched) ‹_› ‹_› ‹_›
  · intro refuses
    cases refuses with
    | zero => exact .zero _ _
    | unmarked references none => exact .unmarked references none
    | unfit first watched => exact .unfit first ((same _).trans watched) ‹_› ‹_› ‹_›

theorem refusedAt_length (same : source.stmts = earlier ++ stmt :: rest) :
    RefusedAt env c source layout earlier.length e ↔
      Refuses env c source layout earlier stmt e := by
  unfold RefusedAt
  rw [same, List.take_left, List.getElem?_append_right (Nat.le_refl _), Nat.sub_self]
  simp

theorem not_refuses_of_idle (idle : stmt.referencesMemory = false)
    (there : ∀ length delta, stmt ≠ .mark 0 length delta) :
    ¬Refuses env c source layout earlier stmt e := by
  intro refuses
  cases refuses with
  | zero length delta => exact there length delta rfl
  | unmarked references =>
    rw [idle] at references
    contradiction
  | unfit _ _ touches =>
    rw [touches.referencesMemory] at idle
    contradiction

namespace Copying

variable {p q : Copying} {steps : List Woven} {types : List Ty}

/-- Whether a copy has turned to an instruction just if one has begun. -/
def Started (earlier : List Stmt) (p : Copying) : Prop :=
  p.current = none ↔ ∀ stmt ∈ earlier, stmt.isMark = false

theorem Started.copy (started : Started earlier p) {index : Nat}
    (done : p.copy env source hook index stmt = .ok (.ok (), q)) : Started (earlier ++ [stmt]) q := by
  have step : q.current = none ↔ p.current = none ∧ stmt.isMark = false := by
    cases copy_eq_ok_iff.1 done with
    | enter marked =>
      cases eq_mark_of_mark? marked
      exact ⟨fun absurd => by contradiction, fun ⟨_, absurd⟩ => by contradiction⟩
    | idle unmarked =>
      rw [and_iff_left (isMark_of_mark?_eq_none unmarked)]
      exact Iff.rfl
    | reference unmarked _ meeting =>
      rw [and_iff_left (isMark_of_mark?_eq_none unmarked)]
      exact (meet_frame meeting).2.2
  unfold Started at started ⊢
  rw [step, started, List.forall_mem_append, List.forall_mem_singleton]

theorem Started.refuses_iff (started : Started earlier p) {ref : MemoryRef} {ty : Ty}
    (touches : source.Touches stmt ref) (typed : source.atomTy ref.addr = .ok ty) :
    Refuses env c source layout earlier stmt e ↔
      (p.current = none ∧ e = .accessBeforeMark earlier.length) ∨
        ∃ address, Untouched earlier address ∧ c.isSuppressed env layout address = false ∧
          ty.isHostWord = false ∧ e = .build (.notHostWord ty) := by
  constructor
  · intro refuses
    cases refuses with
    | zero => cases touches
    | unmarked _ none => exact .inl ⟨started.2 none, rfl⟩
    | unfit first watched also known unfit =>
      cases touches.eq also
      cases typed.symm.trans known
      exact .inr ⟨_, first, watched, unfit, rfl⟩
  · rintro (⟨none, rfl⟩ | ⟨address, first, watched, unfit, rfl⟩)
    · exact .unmarked touches.referencesMemory (started.1 none)
    · exact .unfit first watched touches typed unfit

/-- A memory reference is refused or it is not, and that is said of the statements before it alone. -/
theorem exists_meet (hook : Callee) (tracks : Tracks env layout earlier p) (started : Started earlier p)
    (grown : p.builder.block.temps = source.temps ++ types) {ref : MemoryRef}
    (touches : source.Touches stmt ref) {ty : Ty} (typed : source.atomTy ref.addr = .ok ty) :
    ∃ r q, p.meet hook earlier.length ref = .ok (r, q) ∧
      ∀ e, r = .error e ↔ Refuses env p.checker source layout earlier stmt e := by
  simp only [started.refuses_iff touches typed, tracks.waiting, meet_eq_ok_iff]
  cases here : p.current with
  | none =>
    refine ⟨_, _, .unmarked here, fun e => ?_⟩
    simp only [reduceCtorEq, false_and, exists_false, or_false, true_and, Except.error.injEq]
    exact eq_comm
  | some current =>
    have suppressed := tracks.suppressed current here
    cases referenced : current.referenced with
    | true => exact ⟨_, _, .again here referenced, fun e => by simp [referenced]⟩
    | false =>
      cases silent : current.suppressed with
      | true =>
        refine ⟨_, _, .silent here referenced silent, fun e => ?_⟩
        rw [silent] at suppressed
        simp [← suppressed]
      | false =>
        rw [silent] at suppressed
        have known : ref.addr.ty? p.builder.block.temps = some ty := by
          rw [grown]
          exact Atom.ty?_append (SuperBlock.atomTy_eq_ok_iff.1 typed) types
        cases unfit : ty.isHostWord with
        | true =>
          obtain ⟨b, done⟩ := insertAccessHook_of_fits hook ⟨ty, known, unfit⟩ current.address
            current.vector
          exact ⟨.ok (), _, .watched here referenced silent done, fun e => by simp⟩
        | false =>
          obtain ⟨b, done⟩ := insertAccessHook_of_unfit hook known unfit current.address
            current.vector
          refine ⟨.error (.build (.notHostWord ty)), _, .watched here referenced silent done,
            fun e => ?_⟩
          simp only [reduceCtorEq, false_and, false_or, Option.some.injEq, exists_eq_left', referenced,
            ← suppressed, true_and, Except.error.injEq]
          exact eq_comm

theorem Copied.exists_copy (copied : Copied env source layout hook steps types p)
    (started : Started (steps.map (·.stmt)) p)
    (declared : ∀ t, .temp t ∈ stmt.operands → t.index < source.temps.length) :
    ∃ r q, p.copy env source hook steps.length stmt = .ok (r, q) ∧
      ∀ e, r = .error e ↔ Refuses env p.checker source layout (steps.map (·.stmt)) stmt e := by
  simp only [copy_eq_ok_iff]
  cases marked : SuperBlock.mark? stmt with
  | some mark =>
    by_cases zero : mark.address = 0
    · refine ⟨_, _, .zero marked zero, fun e => ?_⟩
      have refused : Refuses env p.checker source layout (steps.map (·.stmt)) stmt
          (.zeroAddress mark.address) := by
        rw [eq_mark_of_mark? marked, zero]
        exact .zero mark.length mark.delta
      constructor
      · rintro ⟨⟩
        exact refused
      · exact fun refuses => congrArg _ (refused.unique refuses)
    · refine ⟨_, _, .enter marked zero, fun e => ⟨fun absurd => by contradiction, fun refuses => ?_⟩⟩
      cases eq_mark_of_mark? marked
      refine absurd refuses (not_refuses_of_idle rfl fun length delta same => ?_)
      exact zero (Stmt.mark.inj same).1
  | none =>
    obtain ⟨found, referring⟩ := exists_memoryRef? declared
    cases found with
    | none =>
      refine ⟨_, _, .idle marked referring, fun e => ⟨fun absurd => by contradiction, fun refuses => ?_⟩⟩
      refine absurd refuses (not_refuses_of_idle (referencesMemory_of_memoryRef? referring) ?_)
      rintro length delta rfl
      contradiction
    | some ref =>
      have touches := touches_of_memoryRef? referring
      obtain ⟨ty, typed⟩ := exists_atomTy declared touches.addr_mem
      obtain ⟨r, q, met, decided⟩ := exists_meet hook copied.tracks started copied.temps touches
        typed
      rw [List.length_map] at met
      exact ⟨r, q.push stmt, .reference marked referring met, decided⟩

theorem Copied.exists_copyAll (copied : Copied env source layout hook steps types p)
    (started : Started (steps.map (·.stmt)) p) (consulted : Consulted c p.checker)
    (whole : source.stmts = steps.map (·.stmt) ++ rest)
    (declared : ∀ stmt ∈ rest, ∀ t, .temp t ∈ stmt.operands → t.index < source.temps.length)
    (fine : ∀ j < steps.length, ∀ e, ¬RefusedAt env c source layout j e) :
    ∃ r q, p.copyAll env source hook steps.length rest = .ok (r, q) ∧ match r with
      | .error e => ∃ i, RefusedAt env c source layout i e ∧
          ∀ j < i, ∀ other, ¬RefusedAt env c source layout j other
      | .ok () => ∀ i e, ¬RefusedAt env c source layout i e := by
  -- That no statement copied so far is refused (`fine`) makes the first one that is the least.
  induction rest generalizing p steps types with
  | nil =>
    refine ⟨.ok (), p, rfl, fun i e => ?_⟩
    rcases Nat.lt_or_ge i steps.length with inside | beyond
    · exact fine i inside e
    · rintro ⟨stmt, there, -⟩
      have short : source.stmts.length ≤ i := by
        rw [whole, List.append_nil, List.length_map]
        exact beyond
      rw [List.getElem?_eq_none short] at there
      contradiction
  | cons stmt rest ih =>
    obtain ⟨r, q, copying, decided⟩ := copied.exists_copy started (declared stmt List.mem_cons_self)
    have here : ∀ e, RefusedAt env c source layout steps.length e ↔
        Refuses env p.checker source layout (steps.map (·.stmt)) stmt e := by
      intro e
      have same : RefusedAt env c source layout _ e ↔ _ := refusedAt_length whole
      rw [List.length_map] at same
      rw [same, consulted.refuses]
    cases r with
    | error e =>
      refine ⟨.error e, q, copyAll_cons_eq_ok_iff.2 (.inl ⟨e, copying, rfl⟩), steps.length, ?_, fine⟩
      exact (here e).2 ((decided e).1 rfl)
    | ok =>
      obtain ⟨code, more, next⟩ := copied.copy copying
      have further := started.copy copying
      have grown : (steps ++ [(⟨code, stmt⟩ : Woven)]).length = steps.length + 1 :=
        List.length_append
      rw [← List.map_singleton (f := Woven.stmt) (a := ⟨code, stmt⟩), ← List.map_append] at further
      obtain ⟨r, last, onward, found⟩ := ih next further
        (consulted.trans (copy_lookedUp copying).consulted) (by simp [whole])
        (fun other member => declared other (List.mem_cons_of_mem _ member)) fun j before e => by
          rw [grown] at before
          rcases Nat.lt_succ_iff_lt_or_eq.1 before with earlier | rfl
          · exact fine j earlier e
          · intro refused
            have absurd := (decided e).2 ((here e).1 refused)
            contradiction
      rw [grown] at onward
      exact ⟨r, last, copyAll_cons_eq_ok_iff.2 (.inr ⟨q, copying, onward⟩), found⟩

theorem exists_close (env : Environment) (source : SuperBlock) (hook : Callee) (p : Copying) :
    ∃ r q, p.close env source hook = .ok (r, q) ∧ ∀ e, r = .error e ↔
      source.endsInCall = true ∧ source.lastMark? = none ∧ e = .callWithoutMark := by
  simp only [close_eq_ok_iff]
  cases ends : source.endsInCall with
  | false => exact ⟨_, _, .plain ends, fun e => by simp⟩
  | true =>
    cases final : source.lastMark? with
    | none => exact ⟨_, _, .unmarked ends final, fun e => by simp [eq_comm]⟩
    | some mark =>
      let found := p.checker.vectorAt env mark.address
      obtain ⟨b, done⟩ := exists_insertCallHook p.builder hook
        (mark.address + mark.length.toUInt64) found.value
        (spAdjust p.builder.layout found.checker.target.architecture)
      exact ⟨.ok (), _, .call ends final rfl done,
        fun e => ⟨fun absurd => by contradiction, fun ⟨_, absurd, _⟩ => by contradiction⟩⟩

end Copying

theorem lastMark?_eq_none :
    source.lastMark? = none ↔ ∀ stmt ∈ source.stmts, stmt.isMark = false := by
  unfold SuperBlock.lastMark? SuperBlock.marks
  rw [List.getLast?_eq_none_iff, List.filterMap_eq_nil_iff]
  refine forall₂_congr fun stmt _ => ?_
  cases stmt <;> simp [SuperBlock.mark?, Stmt.isMark]

/-- Whatever the block, instrumenting it comes to an end. -/
theorem exists_instrument (env : Environment) (c : Checker) (layout : Layout) (hooks : Hooks)
    (declared : ∀ stmt ∈ source.stmts, ∀ t, .temp t ∈ stmt.operands → t.index < source.temps.length) :
    ∃ o, c.instrument env source layout hooks = .ok o ∧ match o.value with
      | .error e => Fails env c source layout e
      | .ok _ => ∀ e, ¬Fails env c source layout e := by
  simp only [instrument_eq_ok_iff]
  by_cases fitting : layout.architecture = c.target.architecture
  · have start : Copying.Started [] ⟨c, .ofTemplate source layout, none, []⟩ :=
      ⟨fun _ _ absurd => by contradiction, fun _ => rfl⟩
    have copied : Copying.Copied env source layout hooks.access [] [] _ := Copying.copied_start c
    obtain ⟨r, p, copying, found⟩ := copied.exists_copyAll start (Consulted.refl c) rfl declared
      (fun _ absurd => by contradiction)
    cases r with
    | error e =>
      obtain ⟨i, refused, first⟩ := found
      exact ⟨_, .refused fitting copying, .stmt fitting refused first⟩
    | ok =>
      obtain ⟨closed, q, closing, decided⟩ := p.exists_close env source hooks.call
      cases closed with
      | error e =>
        obtain ⟨ends, none, rfl⟩ := (decided e).1 rfl
        refine ⟨_, .unclosed fitting copying closing, ?_⟩
        exact .call fitting found ends (lastMark?_eq_none.1 none)
      | ok =>
        refine ⟨_, .made fitting copying closing, fun e fails => ?_⟩
        cases fails with
        | architecture apart => exact apart fitting
        | stmt _ refused => exact found _ _ refused
        | call _ _ ends none =>
          have absurd := (decided .callWithoutMark).2 ⟨ends, lastMark?_eq_none.2 none, rfl⟩
          contradiction
  · exact ⟨_, .foreign fitting, .architecture fitting⟩

/-- A block whose operands are known is refused just for the first thing that is wrong with it, and if
there is none it is instrumented. Hooks never have too many arguments. -/
theorem instrument_fails_iff (env : Environment) (c : Checker) (layout : Layout) (hooks : Hooks)
    (declared : ∀ stmt ∈ source.stmts, ∀ t, .temp t ∈ stmt.operands → t.index < source.temps.length) :
    ∃ o, c.instrument env source layout hooks = .ok o ∧
      (∀ e, o.value = .error e ↔ Fails env c source layout e) ∧
      ∀ callee given, o.value ≠ .error (.build (.tooManyArguments callee given)) := by
  obtain ⟨o, done, decided⟩ := exists_instrument env c layout hooks declared
  have same : ∀ e, o.value = .error e ↔ Fails env c source layout e := by
    intro e
    cases value : o.value with
    | ok out =>
      rw [value] at decided
      exact ⟨fun absurd => by contradiction, fun fails => absurd fails (decided e)⟩
    | error first =>
      rw [value] at decided
      constructor
      · rintro ⟨⟩
        exact decided
      · intro fails
        exact congrArg _ (decided.unique fails)
  refine ⟨o, done, same, fun callee given many => ?_⟩
  cases (same _).1 many with
  | stmt _ refused =>
    obtain ⟨stmt, -, refuses⟩ := refused
    cases refuses

def refusal? (env : Environment) (c : Checker) (source : SuperBlock) (layout : Layout)
    (hooks : Hooks) : Option InstrumentError :=
  (c.instrument env source layout hooks).toOption.bind fun o => match o.value with
    | .error e => some e
    | .ok _ => none

theorem refusal?_eq_some (found : c.refusal? env source layout hooks = some e) :
    ∃ o, c.instrument env source layout hooks = .ok o ∧ o.value = .error e := by
  obtain ⟨o, done, refused⟩ := toOption_bind_eq_some.1 found
  cases value : o.value with
  | ok out =>
    rw [value] at refused
    contradiction
  | error first =>
    rw [value] at refused
    cases refused
    exact ⟨o, done, value⟩

/-- Two instructions touch memory at an address that is no machine word, the one after another reference
and the other before any. A mark at the end is wrong as well. -/
def wideBlock : SuperBlock where
  temps := [.i64, .f64]
  stmts := [
    .mark 0x2000 4 0,
    .assign ⟨0⟩ (.load .little .i64 (.const (.i64 0x7fe0))),
    .store .little (.temp ⟨1⟩) (.temp ⟨0⟩),
    .mark 0x2004 2 0,
    .store .little (.temp ⟨1⟩) (.const (.i8 1)),
    .mark 0 2 0]
  next := .const (.i64 0x3000)
  jump := .boring
  ipOffset := 184

theorem instrument_fails_wideBlock :
    Fails (scopeEnvironment []) sampleStart wideBlock (.of .amd64) (.build (.notHostWord .f64)) ∧
      ¬Fails (scopeEnvironment []) sampleStart wideBlock (.of .amd64) (.zeroAddress 0) := by
  have declared : ∀ stmt ∈ wideBlock.stmts, ∀ t, .temp t ∈ stmt.operands →
      t.index < wideBlock.temps.length := by
    simp [wideBlock, Stmt.operands, Expr.operands]
  have found : sampleStart.refusal? (scopeEnvironment []) wideBlock (.of .amd64) sampleHooks =
      some (.build (.notHostWord .f64)) := by decide +kernel
  obtain ⟨o, done, refused⟩ := refusal?_eq_some found
  obtain ⟨same, made, fails, -⟩ := instrument_fails_iff (scopeEnvironment []) sampleStart
    (.of .amd64) sampleHooks declared
  cases made.symm.trans done
  refine ⟨(fails _).1 refused, fun zero => ?_⟩
  cases refused.symm.trans ((fails _).2 zero)

end Checker

end Overrun
