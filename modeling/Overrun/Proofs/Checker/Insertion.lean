import Overrun.Proofs.Checker.Weaving

/-! What instrumented code passes to the hook of a memory reference. Whatever is inserted into a block
passes an instruction together with the vector that the checker knows it by. -/

namespace Overrun

open Guest

/-- The handle that a host word stands for; only its low half counts. -/
def VectorRef.ofWord (word : UInt64) : VectorRef :=
  ⟨word.toUInt32.toNat⟩

theorem VectorRef.ofWord_ofNat {v : VectorRef} (small : v.index < 0x100000000) :
    ofWord (.ofNat v.index) = v := by
  have low : v.index % 18446744073709551616 % 4294967296 = v.index := by omega
  exact congrArg VectorRef.mk low

def Guest.Atom.word? : Atom → Option UInt64
  | const (.i64 word) => some word
  | _ => none

/-- The instruction and the vector that a statement passes to the hook of a memory reference, if it is
a call of that hook. -/
def accessPair? (hook : Callee) : Stmt → Option (UInt64 × VectorRef)
  | .call call =>
    if call.callee = hook then do
      let instruction ← call.args[4]?.bind Atom.word?
      let word ← call.args[5]?.bind Atom.word?
      return (instruction, .ofWord word)
    else none
  | _ => none

def insertedStmts (source out : SuperBlock) : List Stmt :=
  out.stmts.filter fun stmt => source.stmts.count stmt < out.stmts.count stmt

def accessPairs (hook : Callee) (source out : SuperBlock) : List (UInt64 × VectorRef) :=
  (insertedStmts source out).filterMap (accessPair? hook)

namespace Checker

/-- Whether code may pass on an instruction with a vector: there is such an instruction, and it is known
by that vector. -/
def Backs (c : Checker) (pair : UInt64 × VectorRef) : Prop :=
  pair.1 ≠ 0 ∧ c.vectors.lookup pair.1 = some pair.2

def Vouches (c : Checker) (hook : Callee) (stmt : Stmt) : Prop :=
  ∀ pair, accessPair? hook stmt = some pair → c.Backs pair

variable {c after : Checker} {hook callee : Callee} {env : Environment}

theorem Backs.retained {pair : UInt64 × VectorRef} (backs : c.Backs pair)
    (retained : Retained c after) : after.Backs pair :=
  ⟨backs.1, retained.known _ _ backs.2⟩

theorem vouches_assignments {first : Nat} {values : List Computation} {stmt : Stmt}
    (member : stmt ∈ assignments first values) : c.Vouches hook stmt := by
  obtain ⟨k, value, -, rfl⟩ := mem_assignments member
  exact fun _ absurd => by contradiction

theorem vouches_access {layout : Layout} {temps types : List Ty} {code : List Stmt} {ref : MemoryRef}
    {instruction : UInt64} {vector : VectorRef}
    (made : HookCode layout temps callee (accessArgs ref instruction vector) code types)
    (backs : c.Backs (instruction, vector)) (small : vector.index < 0x100000000) :
    ∀ stmt ∈ code, c.Vouches hook stmt := by
  cases made with
  | mk few widens =>
    intro stmt member
    rcases List.mem_append.1 member with computed | called
    · exact vouches_assignments computed
    · rw [List.mem_singleton.1 called]
      intro pair passed
      have fifth := widens.passes 4 instruction rfl
      have sixth := widens.passes 5 (.ofNat vector.index) rfl
      unfold accessPair? at passed
      dsimp only at passed
      rw [fifth, sixth] at passed
      split at passed
      · cases passed
        show c.Backs (instruction, .ofWord (.ofNat vector.index))
        rw [VectorRef.ofWord_ofNat small]
        exact backs
      · contradiction

/-- The hook of a call takes one argument less, whatever it is. -/
theorem vouches_call {layout : Layout} {temps types : List Ty} {code : List Stmt}
    {returnAddress adjust : UInt64} {vector : VectorRef}
    (made : HookCode layout temps callee (callArgs returnAddress vector adjust) code types) :
    ∀ stmt ∈ code, c.Vouches hook stmt := by
  cases made with
  | @mk words values few widens =>
    intro stmt member
    rcases List.mem_append.1 member with computed | called
    · exact vouches_assignments computed
    · rw [List.mem_singleton.1 called]
      intro pair passed
      have fewer : words[5]? = none := List.getElem?_eq_none (Nat.le_of_eq widens.length)
      unfold accessPair? at passed
      dsimp only at passed
      rw [fewer] at passed
      split at passed
      · obtain ⟨instruction, -, absurd⟩ := Option.bind_eq_some_iff.1 passed
        contradiction
      · contradiction

section Weaves

variable {source : SuperBlock} {layout : Layout} {code : List Stmt} {temps types : List Ty}

theorem Inserts.vouches {earlier : List Stmt} {stmt : Stmt}
    (inserts : Inserts env source layout callee c earlier temps stmt code types)
    (informed : c.Informed) (few : c.catalog.vectors.size < 0xffffffff) :
    ∀ stmt ∈ code, c.Vouches hook stmt := by
  cases inserts with
  | nothing => exact fun _ absurd => by contradiction
  | @hook _ _ vector _ _ first there watched touches known made =>
    have inside : vector.index < c.catalog.vectors.size := informed _ _ known
    exact vouches_access made ⟨there, known⟩ (by omega)

theorem Closes.vouches (closes : Closes source layout callee c temps code types) :
    ∀ stmt ∈ code, c.Vouches hook stmt := by
  cases closes with
  | nothing => exact fun _ absurd => by contradiction
  | hook ends final known made => exact vouches_call made

theorem Weaves.vouches {steps : List Woven} (weaves : Weaves env source layout callee c steps types)
    (informed : c.Informed) (few : c.catalog.vectors.size < 0xffffffff) :
    ∀ stmt ∈ steps.flatMap (·.inserted), c.Vouches hook stmt := by
  induction weaves with
  | nothing => exact fun _ absurd => by contradiction
  | step before inserts ih =>
    rw [List.flatMap_append, List.flatMap_singleton]
    intro stmt member
    exact (List.mem_append.1 member).elim (ih stmt) (inserts.vouches informed few stmt)

end Weaves

/-- All that instrumented code passes to the hook of a memory reference is backed. -/
theorem instrument_backs {source out : SuperBlock} {layout : Layout} {hooks : Hooks}
    {o : Outcome (Except InstrumentError SuperBlock)} (informed : c.Informed)
    (done : c.instrument env source layout hooks = .ok o) (made : o.value = .ok out)
    (few : o.checker.catalog.vectors.size < 0xffffffff) :
    ∀ pair ∈ accessPairs hooks.access source out, o.checker.Backs pair := by
  have looked := instrument_lookedUp done
  obtain ⟨w, types, more, original, weaves, closes, rfl⟩ := instrument_weaves done made
  intro pair member
  obtain ⟨stmt, inserted, passed⟩ := List.mem_filterMap.1 member
  have counts : w.whole.count stmt = source.stmts.count stmt + w.inserted.count stmt := by
    rw [w.perm_whole.count_eq, List.count_append, original]
  have grown : source.stmts.count stmt < w.whole.count stmt :=
    of_decide_eq_true (List.mem_filter.1 inserted).2
  have new : stmt ∈ w.inserted := List.count_pos_iff.1 (by omega)
  rcases List.mem_append.1 new with before | last
  · exact weaves.vouches (looked.informed informed) few stmt before pair passed
  · exact closes.vouches stmt last pair passed

end Checker

end Overrun
