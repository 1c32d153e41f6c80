import Overrun.Proofs.Checker.Harmless
import Overrun.Session

/-! Where the hooks are called, and what they are told there. A memory reference is announced right before
the statement that makes it, if it is the first of its instruction and that does not end a function. -/

namespace Overrun

open Guest

namespace HookCall

/-- What the hook of a memory reference makes of its words. -/
def ofAccessWords? : List UInt64 → Option HookCall
  | [address, sp, fp, size, instruction, vector] =>
    some (.access ⟨address, sp, fp, size.toInt64, instruction, .ofWord vector⟩)
  | _ => none

def ofCallWords? : List UInt64 → Option HookCall
  | [spAfter, fp, returnAddress, vector, adjust] =>
    some (.call spAfter fp returnAddress (.ofWord vector) adjust.toInt64)
  | _ => none

end HookCall

theorem toInt64_neg_iff {word : UInt64} :
    word.toInt64 < 0 ↔ 0x8000000000000000 ≤ word.toNat := by
  rw [Int64.lt_iff_toInt_lt, Int64.toInt_zero]
  show word.toBitVec.toInt < 0 ↔ 0x8000000000000000 ≤ word.toBitVec.toNat
  rw [BitVec.toInt_neg_iff]
  omega

/-- A size comes back with the kind it was encoded with, but for a write of no bytes. -/
theorem MemoryRef.ofSigned_signedSize (ref : MemoryRef) :
    AccessKind.ofSigned ref.signedSize.toInt64 =
      (if ref.size = 0 then .read else ref.kind, ref.size.toUInt64) := by
  have small : ref.size.toUInt64.toNat < 0x100000000 := by
    rw [UInt32.toNat_toUInt64]
    exact ref.size.toNat_lt
  unfold AccessKind.ofSigned signedSize
  cases ref.kind with
  | read =>
    dsimp only
    rw [if_neg fun negative => ?_, ite_self, UInt64.toUInt64_toInt64]
    have large := toInt64_neg_iff.1 negative
    omega
  | write =>
    dsimp only
    by_cases empty : ref.size = 0
    · rw [empty]
      rfl
    · have some : ref.size.toUInt64.toNat ≠ 0 := by
        rw [UInt32.toNat_toUInt64]
        exact fun none => empty (UInt32.toNat_inj.1 none)
      have negative : (0 - ref.size.toUInt64).toInt64 < 0 := by
        rw [toInt64_neg_iff, UInt64.toNat_sub, UInt64.toNat_zero]
        omega
      rw [if_pos negative, if_neg empty, UInt64.toUInt64_toInt64, UInt64.zero_sub, UInt64.zero_sub,
        UInt64.neg_neg]

def Guest.Stmt.writesNothing : Stmt → Bool
  | call c => c.effect.any fun effect => effect.kind != .read && effect.size == 0
  | _ => false

theorem Guest.Ty.size_ne_zero (ty : Ty) : ty.size ≠ 0 := by
  cases ty <;> decide

theorem Guest.SuperBlock.Touches.decoded_kind {block : SuperBlock} {stmt : Stmt} {ref : MemoryRef}
    (touches : block.Touches stmt ref) :
    (if ref.size = 0 then AccessKind.read else ref.kind) =
      if stmt.writesNothing then .read else ref.kind := by
  cases touches with
  | load | store | swap => exact if_neg (Ty.size_ne_zero _)
  | reads effect => exact (ite_self _).trans (ite_self _).symm
  | @writes call kind addr size changes effect =>
    have nothing : (Stmt.call call).writesNothing = (size == 0) := by
      unfold Stmt.writesNothing
      dsimp only
      rw [effect]
      exact (congrArg (· && _) (bne_iff_ne.2 changes)).trans (Bool.true_and _)
    rw [nothing]
    simp only [beq_iff_eq]

theorem Guest.Valuation.word?_append {now : Valuation} {temps : List Ty} {a : Atom} {word : UInt64}
    (held : now.word? temps a = some word) (more : List Ty) :
    now.word? (temps ++ more) a = some word := by
  obtain ⟨ty, typed, same⟩ := Option.map_eq_some_iff.1 held
  exact Option.map_eq_some_iff.2 ⟨ty, Atom.ty?_append typed more, same⟩

section Words

variable {layout : Layout} {temps types : List Ty} {callee : Callee} {code : List Stmt}

def Guest.Valuation.sp (now : Valuation) (layout : Layout) : UInt64 :=
  layout.wordTy.zeroExtend (now.slot layout.spOffset layout.wordTy)

def Guest.Valuation.fp (now : Valuation) (layout : Layout) : UInt64 :=
  layout.wordTy.zeroExtend (now.slot layout.fpOffset layout.wordTy)

/-- Whether code computes words and then makes one call with them, of which the callee, as it decodes
them, is told something with property `P`: of the state the code started in, and that of the call. -/
def Tells (callee : Callee) (decode : List UInt64 → Option HookCall) (first : Nat)
    (code : List Stmt) (P : Valuation → Valuation → HookCall → Prop) : Prop :=
  ∃ computations words, code = computations ++ [.call ⟨callee, none, words, none, none⟩] ∧
    ∀ now : Valuation, ∃ later told, now.run computations = some later ∧
      Valuation.Keeps first now later ∧ decode (words.map later.atom) = some told ∧ P now later told

theorem Tells.mono {decode : List UInt64 → Option HookCall} {first fewer : Nat}
    {P Q : Valuation → Valuation → HookCall → Prop} (tells : Tells callee decode first code P)
    (lower : fewer ≤ first) (implied : ∀ now later told, P now later told → Q now later told) :
    Tells callee decode fewer code Q := by
  obtain ⟨computations, words, rfl, runs⟩ := tells
  refine ⟨computations, words, rfl, fun now => ?_⟩
  obtain ⟨later, told, ran, kept, decoded, holds⟩ := runs now
  exact ⟨later, told, ran, kept.mono lower, decoded, implied now later told holds⟩

theorem HookCode.tells_access {ref : MemoryRef} {address : UInt64} {vector : VectorRef}
    (made : HookCode layout temps callee (accessArgs ref address vector) code types) :
    Tells callee HookCall.ofAccessWords? temps.length code fun now later told =>
      ∃ target, later.word? (temps ++ types) ref.addr = some target ∧
        told = .access ⟨target, now.sp layout, now.fp layout, ref.signedSize.toInt64, address,
          .ofWord (.ofNat vector.index)⟩ := by
  obtain ⟨computations, words, rfl, runs⟩ := made.run
  refine ⟨computations, words, rfl, fun now => ?_⟩
  obtain ⟨later, sp, fp, ran, kept, passed, spHeld, fpHeld⟩ := runs now
  have head : later.word? (temps ++ types) ref.addr ∈ (words.map later.atom).map some := by
    rw [← passed]
    exact List.mem_cons_self
  obtain ⟨target, -, held⟩ := List.mem_map.1 head
  have same : [target, now.sp layout, now.fp layout, ref.signedSize, address, .ofNat vector.index] =
      words.map later.atom := by
    apply (List.map_inj_right fun _ _ => Option.some.inj).1
    rw [← passed]
    show _ = [later.word? _ ref.addr, later.word? _ sp, later.word? _ fp, _, _, _]
    rw [← held, spHeld, fpHeld]
    rfl
  exact ⟨later, _, ran, kept, congrArg _ same.symm, target, held.symm, rfl⟩

theorem HookCode.tells_call {returnAddress adjust : UInt64} {vector : VectorRef}
    (made : HookCode layout temps callee (callArgs returnAddress vector adjust) code types) :
    Tells callee HookCall.ofCallWords? temps.length code fun now _ told =>
      told = .call (now.sp layout) (now.fp layout) returnAddress (.ofWord (.ofNat vector.index))
        adjust.toInt64 := by
  obtain ⟨computations, words, rfl, runs⟩ := made.run
  refine ⟨computations, words, rfl, fun now => ?_⟩
  obtain ⟨later, sp, fp, ran, kept, passed, spHeld, fpHeld⟩ := runs now
  have same : [now.sp layout, now.fp layout, returnAddress, .ofNat vector.index, adjust] =
      words.map later.atom := by
    apply (List.map_inj_right fun _ _ => Option.some.inj).1
    rw [← passed]
    show _ = [later.word? _ sp, later.word? _ fp, _, _, _]
    rw [spHeld, fpHeld]
    rfl
  exact ⟨later, _, ran, kept, congrArg _ same.symm, rfl⟩

theorem HookCode.ne_nil {args : Atom → Atom → List Atom}
    (made : HookCode layout temps callee args code types) : code ≠ [] := by
  obtain ⟨computations, words, rfl, -⟩ := made.run
  exact List.append_ne_nil_of_right_ne_nil _ (List.cons_ne_nil _ _)

end Words

theorem Untouched.lastMark {earlier : List Stmt} {address : UInt64}
    (untouched : Untouched earlier address) :
    ∃ mark, (earlier.filterMap SuperBlock.mark?).getLast? = some mark ∧ mark.address = address := by
  obtain ⟨before, length, delta, since, rfl, quiet⟩ := untouched
  have unmarked : since.filterMap SuperBlock.mark? = [] := by
    rw [List.filterMap_eq_nil_iff]
    intro stmt member
    have plain := (quiet stmt member).1
    cases stmt <;> first | rfl | contradiction
  have marked : (Stmt.mark address length delta :: since).filterMap SuperBlock.mark? =
      [⟨address, length, delta⟩] :=
    congrArg (SuperBlock.Mark.mk address length delta :: ·) unmarked
  refine ⟨⟨address, length, delta⟩, ?_, rfl⟩
  rw [List.filterMap_append, marked, List.getLast?_concat]

theorem Untouched.eq {earlier : List Stmt} {address other : UInt64}
    (one : Untouched earlier address) (two : Untouched earlier other) : address = other := by
  obtain ⟨mark, final, rfl⟩ := one.lastMark
  obtain ⟨same, finalToo, rfl⟩ := two.lastMark
  cases final.symm.trans finalToo
  rfl

/-- Whether a hook is told of a memory reference of a statement, by code that has started with the values
`now` and has `later` ones at the call. -/
structure AccessHook.Describes (hook : AccessHook) (layout : Layout) (temps : List Ty) (stmt : Stmt)
    (ref : MemoryRef) (now later : Valuation) : Prop where
  address : later.word? temps ref.addr = some hook.address
  sp : hook.sp = now.sp layout
  fp : hook.fp = now.fp layout
  size : (AccessKind.ofSigned hook.signedSize).2 = ref.size.toUInt64
  kind : (AccessKind.ofSigned hook.signedSize).1 = if stmt.writesNothing then .read else ref.kind

namespace Checker

/-- Whether the hook of a memory reference is due before a statement of the instruction at `address`: it
is the first there to touch memory, and the instruction does not begin the end of a function. -/
structure Due (env : Environment) (c : Checker) (layout : Layout) (earlier : List Stmt) (stmt : Stmt)
    (address : UInt64) : Prop where
  references : stmt.referencesMemory = true
  first : Untouched earlier address
  watched : c.isSuppressed env layout address = false

def Announces (c : Checker) (layout : Layout) (hook : Callee) (source out : SuperBlock)
    (address : UInt64) (step : Woven) : Prop :=
  ∃ ref vector, source.Touches step.stmt ref ∧ c.vectors.lookup address = some vector ∧
    Tells hook HookCall.ofAccessWords? source.temps.length step.inserted fun now later told =>
      ∃ access, told = .access access ∧ access.Describes layout out.temps step.stmt ref now later ∧
        access.instruction = address ∧ (vector.index < 0x100000000 → access.vector = vector)

def AnnouncesCall (c : Checker) (layout : Layout) (hook : Callee) (source : SuperBlock)
    (code : List Stmt) : Prop :=
  ∃ mark vector, source.lastMark? = some mark ∧ c.vectors.lookup mark.address = some vector ∧
    Tells hook HookCall.ofCallWords? source.temps.length code fun now _ told =>
      ∃ passed, (vector.index < 0x100000000 → passed = vector) ∧
        told = .call (now.sp layout) (now.fp layout) (mark.address + mark.length.toUInt64) passed
          (spAdjust layout c.target.architecture).toInt64

variable {c after : Checker} {env : Environment} {source out : SuperBlock} {layout : Layout}
  {hook : Callee} {hooks : Hooks} {earlier code : List Stmt} {temps types : List Ty} {stmt : Stmt}

theorem Inserts.ne_nil_iff (inserts : Inserts env source layout hook c earlier temps stmt code types) :
    code ≠ [] ↔ ∃ address, c.Due env layout earlier stmt address := by
  cases inserts with
  | nothing unneeded =>
    refine ⟨fun absurd => by contradiction, ?_⟩
    rintro ⟨address, references, first, watched⟩
    rw [unneeded references address first] at watched
    contradiction
  | hook first there watched touches known made =>
    exact ⟨fun _ => ⟨_, touches.referencesMemory, first, watched⟩, fun _ => made.ne_nil⟩

theorem Inserts.announces {early more late : List Ty} {step : Woven} {address : UInt64}
    (inserts : Inserts env source layout hook c earlier (source.temps ++ early) step.stmt
      step.inserted more)
    (due : c.Due env layout earlier step.stmt address)
    (grown : out.temps = source.temps ++ early ++ more ++ late) :
    c.Announces layout hook source out address step := by
  generalize coded : step.inserted = code at inserts
  cases inserts with
  | nothing unneeded =>
    have silent := unneeded due.references address due.first
    rw [due.watched] at silent
    contradiction
  | @hook other ref vector _ _ first there watched touches known made =>
    cases due.first.eq first
    refine ⟨ref, vector, touches, known, ?_⟩
    rw [coded, grown]
    have lower : source.temps.length ≤ (source.temps ++ early).length := by
      rw [List.length_append]
      exact Nat.le_add_right _ _
    refine made.tells_access.mono lower fun now later told passed => ?_
    obtain ⟨target, held, rfl⟩ := passed
    have decoded := ref.ofSigned_signedSize
    refine ⟨_, rfl, ⟨Valuation.word?_append held late, rfl, rfl, ?_, ?_⟩, rfl, VectorRef.ofWord_ofNat⟩
    · exact congrArg Prod.snd decoded
    · exact (congrArg Prod.fst decoded).trans touches.decoded_kind

theorem Weaves.inserts_at {steps : List Woven} (weaves : Weaves env source layout hook c steps types)
    {i : Nat} {step : Woven} (held : steps[i]? = some step) :
    ∃ early more late, types = early ++ more ++ late ∧
      Inserts env source layout hook c ((steps.map (·.stmt)).take i) (source.temps ++ early)
        step.stmt step.inserted more := by
  induction weaves with
  | nothing => contradiction
  | @step steps types more code stmt before inserts ih =>
    rw [List.map_append]
    rcases Nat.lt_or_ge i steps.length with inside | beyond
    · rw [List.getElem?_append_left inside] at held
      obtain ⟨early, here, late, rfl, inserted⟩ := ih held
      refine ⟨early, here, late ++ more, List.append_assoc _ _ _, ?_⟩
      rw [List.take_append_of_le_length]
      · exact inserted
      · rw [List.length_map]
        exact Nat.le_of_lt inside
    · rw [List.getElem?_append_right beyond, List.getElem?_singleton] at held
      split at held
      · next last =>
        cases held
        refine ⟨types, more, [], (List.append_nil _).symm, ?_⟩
        have all : i = (steps.map (·.stmt)).length := by
          rw [List.length_map]
          omega
        rw [all, List.take_left]
        exact inserts
      · contradiction

theorem Closes.ne_nil_iff (closes : Closes source layout hook c temps code types) :
    code ≠ [] ↔ source.endsInCall = true := by
  cases closes with
  | nothing plain =>
    rw [plain]
    exact ⟨fun absurd => by contradiction, fun absurd => by contradiction⟩
  | hook ends final known made => exact ⟨fun _ => ends, fun _ => made.ne_nil⟩

theorem Closes.announces {early : List Ty}
    (closes : Closes source layout hook c (source.temps ++ early) code types)
    (ends : source.endsInCall = true) : c.AnnouncesCall layout hook source code := by
  cases closes with
  | nothing plain =>
    rw [plain] at ends
    contradiction
  | @hook mark vector _ _ _ final known made =>
    have lower : source.temps.length ≤ (source.temps ++ early).length := by
      rw [List.length_append]
      exact Nat.le_add_right _ _
    refine ⟨mark, vector, final, known, made.tells_call.mono lower fun now _ told passed => ?_⟩
    exact ⟨_, VectorRef.ofWord_ofNat, passed⟩

/-- Whether the hooks are called in a block where they are due and nowhere else, and are told what they
are to know. -/
structure Placed (env : Environment) (c after : Checker) (source out : SuperBlock) (layout : Layout)
    (hooks : Hooks) (w : Weave) : Prop where
  whole : w.whole = out.stmts
  original : w.original = source.stmts
  needed : ∀ i step, w.steps[i]? = some step →
    (step.inserted ≠ [] ↔ ∃ address, c.Due env layout (source.stmts.take i) step.stmt address)
  access : ∀ i step address, w.steps[i]? = some step →
    c.Due env layout (source.stmts.take i) step.stmt address →
      after.Announces layout hooks.access source out address step
  ends : w.last ≠ [] ↔ source.endsInCall = true
  call : source.endsInCall = true → after.AnnouncesCall layout hooks.call source w.last

theorem Consulted.due (consulted : Consulted c after) {address : UInt64} :
    after.Due env layout earlier stmt address ↔ c.Due env layout earlier stmt address := by
  have same := consulted.isSuppressed env layout address
  constructor
  · rintro ⟨references, first, watched⟩
    exact ⟨references, first, same.symm.trans watched⟩
  · rintro ⟨references, first, watched⟩
    exact ⟨references, first, same.trans watched⟩

/-- Instrumented code calls the hooks where it should and tells them what it should. -/
theorem instrument_placed {o : Outcome (Except InstrumentError SuperBlock)}
    (done : c.instrument env source layout hooks = .ok o) (made : o.value = .ok out) :
    ∃ w : Weave, Placed env c o.checker source out layout hooks w := by
  have consulted := (instrument_lookedUp done).consulted
  obtain ⟨w, types, more, original, weaves, closes, rfl⟩ := instrument_weaves done made
  refine ⟨w, rfl, original, fun i step held => ?_, fun i step address held due => ?_,
    closes.ne_nil_iff, closes.announces⟩
  · obtain ⟨early, here, late, -, inserts⟩ := weaves.inserts_at held
    rw [inserts.ne_nil_iff, ← original]
    exact exists_congr fun address => consulted.due
  · obtain ⟨early, here, late, rfl, inserts⟩ := weaves.inserts_at held
    rw [← original] at due
    have grown : source.temps ++ (early ++ here ++ late) ++ more =
        source.temps ++ early ++ here ++ (late ++ more) := by
      simp only [List.append_assoc]
    exact inserts.announces (consulted.due.2 due) grown

theorem instrument_placed_narrowBlock :
    ∃ (after : Checker) (w : Weave),
      Placed (scopeEnvironment []) narrowStart after narrowBlock narrowOut (.of .x86) sampleHooks w := by
  obtain ⟨o, done, made⟩ := instrumented?_eq_some instrumented?_narrowBlock
  exact ⟨o.checker, instrument_placed done made⟩

end Checker

end Overrun
