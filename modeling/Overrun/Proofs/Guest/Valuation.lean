import Overrun.Proofs.Guest.Extending

/-! What the words are that a helper is passed. Narrow values are passed zero-extended, and computing them
leaves what was there before as it was. -/

namespace Overrun.Guest

/-- The low bits of a word that make up a value of a type. -/
def Ty.zeroExtend : Ty → UInt64 → UInt64
  | i1, word => word &&& 1
  | i8, word => word.toUInt8.toUInt64
  | i16, word => word.toUInt16.toUInt64
  | i32, word => word.toUInt32.toUInt64
  | i64, word | i128, word | f32, word | f64, word | v128, word => word

def UnOp.zeroExtended? : UnOp → Option Ty
  | widen8U => some .i8
  | widen16U => some .i16
  | widen32U => some .i32
  | widen32S | narrow64 | not32 | not64 => none

theorem UnOp.zeroExtended?_of_widening {ty : Ty} {op : UnOp} (narrow : widening? ty = some op) :
    op.zeroExtended? = some ty := by
  unfold widening? at narrow
  split at narrow <;> cases narrow <;> rfl

theorem Const.zeroExtend_value (c : Const) : c.ty.zeroExtend c.value = c.value := by
  cases c with
  | i1 bit => cases bit <;> rfl
  | i8 v => exact congrArg UInt8.toUInt64 (UInt8.toUInt8_toUInt64 v)
  | i16 v => exact congrArg UInt16.toUInt64 (UInt16.toUInt16_toUInt64 v)
  | i32 v => exact congrArg UInt32.toUInt64 (UInt32.toUInt32_toUInt64 v)
  | i64 v => rfl

/-- What the temporaries hold and what the guest state reads as, in the low bits of words. -/
structure Valuation where
  temp : Temp → UInt64
  slot : UInt32 → Ty → UInt64

namespace Valuation

def assign (now : Valuation) (t : Temp) (word : UInt64) : Valuation :=
  { now with temp := fun other => if other = t then word else now.temp other }

def atom (now : Valuation) : Atom → UInt64
  | .temp t => now.temp t
  | .const c => c.value

/-- The value of an expression that reads the guest state or extends a value with zeros. No other is
computed for a helper. -/
def expr? (now : Valuation) : Expr → Option UInt64
  | .get offset ty => some (now.slot offset ty)
  | .unop op a => op.zeroExtended?.map fun ty => ty.zeroExtend (now.atom a)
  | _ => none

def run (now : Valuation) : List Stmt → Option Valuation
  | [] => some now
  | .assign t e :: rest => (now.expr? e).bind fun word => (now.assign t word).run rest
  | _ => none

def word? (now : Valuation) (temps : List Ty) (a : Atom) : Option UInt64 :=
  (a.ty? temps).map fun ty => ty.zeroExtend (now.atom a)

theorem run_append (now : Valuation) (code more : List Stmt) :
    now.run (code ++ more) = (now.run code).bind fun middle => middle.run more := by
  induction code generalizing now with
  | nil => rfl
  | cons stmt rest ih =>
    cases stmt with
    | assign t e =>
      show ((now.expr? e).bind fun word => (now.assign t word).run (rest ++ more)) =
        ((now.expr? e).bind fun word => (now.assign t word).run rest).bind
          fun middle => middle.run more
      cases now.expr? e with
      | none => rfl
      | some word => exact ih (now.assign t word)
    | _ => rfl

structure Keeps (first : Nat) (now later : Valuation) : Prop where
  temp : ∀ t : Temp, t.index < first → later.temp t = now.temp t
  slot : later.slot = now.slot

variable {first more : Nat} {now later last : Valuation}

theorem Keeps.refl (first : Nat) (now : Valuation) : Keeps first now now :=
  ⟨fun _ _ => rfl, rfl⟩

theorem Keeps.trans (early : Keeps first now later) (late : Keeps first later last) :
    Keeps first now last :=
  ⟨fun t old => (late.temp t old).trans (early.temp t old), late.slot.trans early.slot⟩

theorem Keeps.mono (keeps : Keeps more now later) (fewer : first ≤ more) :
    Keeps first now later :=
  ⟨fun t old => keeps.temp t (Nat.lt_of_lt_of_le old fewer), keeps.slot⟩

theorem keeps_assign {t : Temp} (new : first ≤ t.index) (word : UInt64) :
    Keeps first now (now.assign t word) := by
  refine ⟨fun other old => if_neg fun same => ?_, rfl⟩
  rw [same] at old
  exact Nat.not_le_of_lt old new

theorem Keeps.atom {temps : List Ty} (keeps : Keeps temps.length now later) {a : Atom} {ty : Ty}
    (typed : a.ty? temps = some ty) : later.atom a = now.atom a := by
  cases a with
  | const c => rfl
  | temp t =>
    obtain ⟨inside, -⟩ := List.getElem?_eq_some_iff.1 typed
    exact keeps.temp t inside

end Valuation

variable {temps : List Ty} {a word : Atom} {args words : List Atom} {values : List Computation}

theorem Widens.ty? (widens : Widens temps a word values) :
    word.ty? (temps ++ values.map (·.ty)) = some .i64 := by
  cases widens with
  | word typed => exact Atom.ty?_append typed _
  | const => rfl
  | temp => exact ty?_nextTemp temps .i64 []

theorem Widens.typed (widens : Widens temps a word values) : ∃ ty, a.ty? temps = some ty := by
  cases widens with
  | word typed => exact ⟨_, typed⟩
  | const => exact ⟨_, rfl⟩
  | temp typed => exact ⟨_, typed⟩

theorem Widens.run (widens : Widens temps a word values) (now : Valuation) :
    ∃ later, now.run (assignments temps.length values) = some later ∧
      Valuation.Keeps temps.length now later ∧
      now.word? temps a = some (later.atom word) := by
  cases widens with
  | word typed =>
    refine ⟨now, rfl, .refl _ now, ?_⟩
    unfold Valuation.word?
    rw [typed]
    rfl
  | @const c op narrow =>
    exact ⟨now, rfl, .refl _ now, congrArg some c.zeroExtend_value⟩
  | @temp t ty op typed narrow =>
    let value := ty.zeroExtend (now.temp t)
    have zeros := UnOp.zeroExtended?_of_widening narrow
    refine ⟨now.assign ⟨temps.length⟩ value, ?_, Valuation.keeps_assign (Nat.le_refl _) _, ?_⟩
    · unfold assignments Valuation.run Valuation.expr?
      dsimp only
      rw [zeros]
      rfl
    · have narrowed : (Atom.temp t).ty? temps = some ty := typed
      unfold Valuation.word?
      rw [narrowed]
      exact congrArg some (if_pos rfl).symm

theorem WidensAll.ty? (widens : WidensAll temps args words values) :
    ∀ word ∈ words, word.ty? (temps ++ values.map (·.ty)) = some .i64 := by
  induction widens with
  | nil => exact fun _ absurd => by contradiction
  | cons first onward ih =>
    rw [List.map_append, ← List.append_assoc]
    intro word member
    rcases List.mem_cons.1 member with rfl | later
    · exact Atom.ty?_append first.ty? _
    · exact ih word later

theorem WidensAll.length (widens : WidensAll temps args words values) :
    words.length = args.length := by
  induction widens with
  | nil => rfl
  | cons first onward ih => exact congrArg Nat.succ ih

theorem Widens.passes {c : UInt64} (widens : Widens temps (.const (.i64 c)) word values) :
    word = .const (.i64 c) := by
  cases widens with
  | word | const => rfl

theorem WidensAll.passes (widens : WidensAll temps args words values) (k : Nat) (c : UInt64)
    (given : args[k]? = some (.const (.i64 c))) : words[k]? = some (.const (.i64 c)) := by
  induction widens generalizing k with
  | nil => contradiction
  | cons first onward ih =>
    cases k with
    | zero =>
      cases given
      exact congrArg some first.passes
    | succ k => exact ih k given

/-- Each word that is passed is the zero-extended value of the argument it stands for. -/
theorem WidensAll.run (widens : WidensAll temps args words values) (now : Valuation) :
    ∃ later, now.run (assignments temps.length values) = some later ∧
      Valuation.Keeps temps.length now later ∧
      args.map (later.word? (temps ++ values.map (·.ty))) =
        (words.map later.atom).map some := by
  induction widens generalizing now with
  | nil => exact ⟨now, rfl, .refl _ now, rfl⟩
  | @cons temps a word rest words values more first onward ih =>
    obtain ⟨middle, ran, kept, passed⟩ := first.run now
    obtain ⟨later, onwardRan, onwardKept, onwardPassed⟩ := ih middle
    have reach : (temps ++ values.map (·.ty)).length = temps.length + values.length := by
      rw [List.length_append, List.length_map]
    have lower : temps.length ≤ (temps ++ values.map (·.ty)).length := by
      rw [reach]
      exact Nat.le_add_right _ _
    refine ⟨later, ?_, kept.trans (onwardKept.mono lower), ?_⟩
    · rw [assignments_append, Valuation.run_append, ran, ← reach]
      exact onwardRan
    · rw [List.map_append, ← List.append_assoc]
      obtain ⟨ty, typed⟩ := first.typed
      -- What was computed for the first argument is still there in the end.
      have same : later.atom a = now.atom a :=
        (onwardKept.atom (Atom.ty?_append typed _)).trans (kept.atom typed)
      have sameWord : later.atom word = middle.atom word := onwardKept.atom first.ty?
      have head : later.word? (temps ++ values.map (·.ty) ++ more.map (·.ty)) a =
          some (later.atom word) := by
        rw [sameWord, ← passed]
        unfold Valuation.word?
        rw [typed, Atom.ty?_append (Atom.ty?_append typed _) _, same]
      rw [List.map_cons, List.map_cons, List.map_cons, head, onwardPassed]

end Overrun.Guest
