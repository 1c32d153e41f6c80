import Mathlib.Data.List.Basic
import Overrun.Proofs.Guest.Refusing

/-! Everything that can come of calling a helper, argument by argument. There are too many of them, or the
first that is no host word is named, or the call is added and each argument is passed as it is, as a wide
constant or through a temporary of its own. What was computed up to then stays in every case. -/

namespace Overrun.Guest

def Atom.widening? (temps : List Ty) : Atom → Option Computation
  | temp t => (temps[t.index]?.bind UnOp.widening?).map fun op => ⟨.i64, .unop op (.temp t)⟩
  | const _ => none

theorem Atom.widening?_temp (temps : List Ty) (t : Temp) :
    (temp t).widening? temps =
      (temps[t.index]?.bind UnOp.widening?).map fun op => ⟨.i64, .unop op (.temp t)⟩ :=
  rfl

def widenings (temps : List Ty) (args : List Atom) : List Computation :=
  args.filterMap (Atom.widening? temps)

def InRange (temps : List Ty) (args : List Atom) : Prop :=
  ∀ a ∈ args, (a.ty? temps).isSome = true

/-- Whether the first atom that can't be passed to a helper is at a position, and of what type it is. -/
structure FirstUnfit (temps : List Ty) (args : List Atom) (k : Nat) (ty : Ty) : Prop where
  earlier : ∀ a ∈ args.take k, a.Fits temps
  here : (args[k]?).bind (Atom.ty? temps) = some ty
  unfit : ty.isHostWord = false

/-- What an atom is passed as where there are `temps`, with `values` computed, if those from position `j`
on are for it and for the atoms behind it. -/
inductive PassedAs (temps : List Ty) (values : List Computation) (j : Nat) : Atom → Atom → Prop where
  | word {a : Atom} (wide : a.ty? temps = some .i64) : PassedAs temps values j a a
  | const {c : Const} (narrow : c.ty ≠ .i64) :
      PassedAs temps values j (.const c) (.const (.i64 c.value))
  | temp {t : Temp} {ty : Ty} {op : UnOp} (narrow : temps[t.index]? = some ty)
      (matching : op.zeroExtended? = some ty)
      (computed : values[j]? = some ⟨.i64, .unop op (.temp t)⟩) :
      PassedAs temps values j (.temp t) (.temp ⟨temps.length + j⟩)

section Widening

variable {temps : List Ty} {a word : Atom} {args words : List Atom} {values : List Computation}

theorem InRange.tail (inRange : InRange temps (a :: args)) : InRange temps args :=
  fun other member => inRange other (List.mem_cons_of_mem _ member)

theorem InRange.append (inRange : InRange temps args) (more : List Ty) :
    InRange (temps ++ more) args := by
  intro a member
  obtain ⟨ty, typed⟩ := Option.isSome_iff_exists.1 (inRange a member)
  rw [Atom.ty?_append typed more]
  rfl

theorem Atom.ty?_append_of_isSome (typed : (a.ty? temps).isSome = true) (more : List Ty) :
    a.ty? (temps ++ more) = a.ty? temps := by
  obtain ⟨ty, same⟩ := Option.isSome_iff_exists.1 typed
  rw [same, Atom.ty?_append same more]

theorem Atom.widening?_append (typed : (a.ty? temps).isSome = true) (more : List Ty) :
    a.widening? (temps ++ more) = a.widening? temps := by
  cases a with
  | const c => rfl
  | temp t =>
    have same : (temps ++ more)[t.index]? = temps[t.index]? := ty?_append_of_isSome typed more
    rw [widening?_temp, widening?_temp, same]

theorem widenings_append (inRange : InRange temps args) (more : List Ty) :
    widenings (temps ++ more) args = widenings temps args :=
  List.filterMap_congr fun a member => Atom.widening?_append (inRange a member) more

theorem Widens.values_eq (widens : Widens temps a word values) :
    values = (a.widening? temps).toList := by
  cases widens with
  | word wide =>
    cases a with
    | const c => rfl
    | temp t =>
      have same : temps[t.index]? = some .i64 := wide
      rw [Atom.widening?_temp, same]
      rfl
  | const => rfl
  | temp typed narrow =>
    rw [Atom.widening?_temp, typed, Option.bind_some, narrow]
    rfl

theorem widenings_cons (temps : List Ty) (a : Atom) (args : List Atom) :
    widenings temps (a :: args) = (a.widening? temps).toList ++ widenings temps args := by
  unfold widenings
  rw [List.filterMap_cons]
  cases a.widening? temps <;> rfl

theorem WidensAll.values_eq (widens : WidensAll temps args words values)
    (inRange : InRange temps args) : values = widenings temps args := by
  induction widens with
  | nil => rfl
  | cons first onward ih =>
    rw [widenings_cons, ih (inRange.tail.append _), widenings_append inRange.tail, first.values_eq]

theorem Widens.passedAs (widens : Widens temps a word values) (more : List Computation) :
    PassedAs temps (values ++ more) 0 a word := by
  cases widens with
  | word wide => exact .word wide
  | @const c op narrow =>
    refine .const fun wide => ?_
    rw [wide] at narrow
    contradiction
  | temp typed narrow => exact .temp typed (UnOp.zeroExtended?_of_widening narrow) rfl

/-- What is passed for an argument stays the same if others are widened before it. -/
theorem PassedAs.after {j : Nat} {early : List Computation}
    (passed : PassedAs (temps ++ early.map (·.ty)) values j a word)
    (typed : (a.ty? temps).isSome = true) :
    PassedAs temps (early ++ values) (early.length + j) a word := by
  cases passed with
  | word wide => exact .word ((Atom.ty?_append_of_isSome typed _).symm.trans wide)
  | const narrow => exact .const narrow
  | @temp t ty op narrow matching computed =>
    have same : (temps ++ early.map (·.ty))[t.index]? = temps[t.index]? :=
      Atom.ty?_append_of_isSome typed _
    rw [List.length_append, List.length_map, Nat.add_assoc]
    refine .temp (same.symm.trans narrow) matching ?_
    rw [List.getElem?_append_right (Nat.le_add_right _ _), Nat.add_sub_cancel_left]
    exact computed

theorem WidensAll.passedAs (widens : WidensAll temps args words values)
    (inRange : InRange temps args) {k : Nat} (given : args[k]? = some a) :
    ∃ word, words[k]? = some word ∧
      PassedAs temps values (widenings temps (args.take k)).length a word := by
  induction widens generalizing k with
  | nil => contradiction
  | @cons temps first word rest words values more widens onward ih =>
    cases k with
    | zero =>
      cases given
      exact ⟨word, rfl, widens.passedAs more⟩
    | succ k =>
      have known := inRange.tail
      have typed : (a.ty? temps).isSome = true := known a (List.mem_of_getElem? given)
      have early : InRange temps (rest.take k) :=
        fun other member => known other (List.mem_of_mem_take member)
      obtain ⟨passed, held, as⟩ := ih (known.append _) given
      rw [widenings_append early] at as
      refine ⟨passed, held, ?_⟩
      rw [List.take_succ_cons, widenings_cons, ← widens.values_eq, List.length_append]
      exact as.after typed

end Widening

section Unfit

variable {temps : List Ty} {a : Atom} {args : List Atom} {k : Nat} {ty : Ty}

theorem FirstUnfit.cons (fits : a.Fits temps) (first : FirstUnfit temps args k ty) :
    FirstUnfit temps (a :: args) (k + 1) ty := by
  refine ⟨fun other member => ?_, first.here, first.unfit⟩
  rw [List.take_succ_cons] at member
  rcases List.mem_cons.1 member with rfl | later
  · exact fits
  · exact first.earlier other later

theorem InRange.fits_or (inRange : InRange temps args) :
    (∀ a ∈ args, a.Fits temps) ∨ ∃ k ty, FirstUnfit temps args k ty := by
  induction args with
  | nil => exact .inl fun _ absurd => by contradiction
  | cons a rest ih =>
    obtain ⟨ty, typed⟩ := Option.isSome_iff_exists.1 (inRange a List.mem_cons_self)
    cases word : ty.isHostWord with
    | false => exact .inr ⟨0, ty, fun _ absurd => by contradiction, typed, word⟩
    | true =>
      rcases ih inRange.tail with fits | ⟨k, other, first⟩
      · exact .inl (List.forall_mem_cons.2 ⟨⟨ty, typed, word⟩, fits⟩)
      · exact .inr ⟨k + 1, other, first.cons ⟨ty, typed, word⟩⟩

theorem FirstUnfit.exists_atom (first : FirstUnfit temps args k ty) :
    ∃ a, args[k]? = some a ∧ a.ty? temps = some ty ∧ ¬a.Fits temps := by
  obtain ⟨a, given, typed⟩ := Option.bind_eq_some_iff.1 first.here
  refine ⟨a, given, typed, fun ⟨other, same, word⟩ => ?_⟩
  cases typed.symm.trans same
  rw [first.unfit] at word
  contradiction

theorem FirstUnfit.not_fits (first : FirstUnfit temps args k ty) :
    ¬∀ a ∈ args, a.Fits temps := by
  obtain ⟨a, given, -, unfit⟩ := first.exists_atom
  exact fun fits => unfit (fits a (List.mem_of_getElem? given))

theorem FirstUnfit.le {k' : Nat} {ty' : Ty} (first : FirstUnfit temps args k ty)
    (other : FirstUnfit temps args k' ty') : k ≤ k' := by
  refine Nat.le_of_not_lt fun before => ?_
  obtain ⟨a, given, -, unfit⟩ := other.exists_atom
  have taken : (args.take k)[k']? = some a := (List.getElem?_take_of_lt before).trans given
  exact unfit (first.earlier a (List.mem_of_getElem? taken))

theorem FirstUnfit.unique {k' : Nat} {ty' : Ty} (first : FirstUnfit temps args k ty)
    (other : FirstUnfit temps args k' ty') : k = k' ∧ ty = ty' := by
  have same := Nat.le_antisymm (first.le other) (other.le first)
  subst same
  exact ⟨rfl, Option.some.inj (first.here.symm.trans other.here)⟩

end Unfit

theorem getElem?_assignments (first : Nat) (values : List Computation) (j : Nat) :
    (assignments first values)[j]? =
      values[j]?.map fun value => .assign ⟨first + j⟩ value.expr := by
  induction values generalizing first j with
  | nil => rfl
  | cons value rest ih =>
    cases j with
    | zero => rfl
    | succ j =>
      show (assignments (first + 1) rest)[j]? = _
      rw [ih, Nat.add_assoc, Nat.add_comm 1 j]
      rfl

namespace Valuation

variable {temps : List Ty} {now later : Valuation}

theorem Keeps.word? (keeps : Keeps temps.length now later) {a : Atom}
    (typed : (a.ty? temps).isSome = true) (more : List Ty) :
    later.word? (temps ++ more) a = now.word? temps a := by
  obtain ⟨ty, same⟩ := Option.isSome_iff_exists.1 typed
  unfold Valuation.word?
  rw [Atom.ty?_append same more, same, Option.map_some, Option.map_some, keeps.atom same]

end Valuation

namespace Builder

variable {b : Builder} {callee : Callee} {args : List Atom} {effect : Option MemoryEffect}

theorem compute_at {values : List Computation} {j : Nat} {value : Computation}
    (computed : values[j]? = some value) :
    (b.compute values).block.temps[b.block.temps.length + j]? = some value.ty ∧
      (b.compute values).block.stmts[b.block.stmts.length + j]? =
        some (.assign ⟨b.block.temps.length + j⟩ value.expr) := by
  unfold compute extend
  dsimp only
  rw [List.getElem?_append_right (Nat.le_add_right _ _), List.getElem?_append_right
    (Nat.le_add_right _ _), Nat.add_sub_cancel_left, Nat.add_sub_cancel_left, List.getElem?_map,
    getElem?_assignments, computed]
  exact ⟨rfl, rfl⟩

structure Passes (b after : Builder) (args words : List Atom) (values : List Computation) :
    Prop where
  length : words.length = args.length
  each : ∀ k a, args[k]? = some a → ∃ word, words[k]? = some word ∧
    PassedAs b.block.temps values (widenings b.block.temps (args.take k)).length a word
  defined : ∀ j value, values[j]? = some value →
    after.block.temps[b.block.temps.length + j]? = some value.ty ∧
      after.block.stmts[b.block.stmts.length + j]? =
        some (.assign ⟨b.block.temps.length + j⟩ value.expr)
  /-- Whatever the temporaries hold, the words are the arguments, extended with zeros. -/
  worth : ∀ now : Valuation, ∃ later,
    now.run (assignments b.block.temps.length values) = some later ∧
      args.map (now.word? b.block.temps) = (words.map later.atom).map some

theorem passes_compute {words : List Atom} {values : List Computation}
    (inRange : InRange b.block.temps args)
    (widens : WidensAll b.block.temps args words values) (stmt : Stmt) :
    b.Passes ((b.compute values).push stmt) args words values where
  length := widens.length
  each _ _ given := widens.passedAs inRange given
  defined j value computed := by
    obtain ⟨temp, assigned⟩ := compute_at (b := b) computed
    obtain ⟨inside, -⟩ := List.getElem?_eq_some_iff.1 assigned
    exact ⟨temp, (List.getElem?_append_left inside).trans assigned⟩
  worth now := by
    obtain ⟨later, ran, kept, worth⟩ := widens.run now
    refine ⟨later, ran, Eq.trans ?_ worth⟩
    exact List.map_congr_left fun a member => (kept.word? (inRange a member) _).symm

structure Answers (b : Builder) (callee : Callee) (args : List Atom) (effect : Option MemoryEffect)
    (result : Except BuildError Unit) (after : Builder) : Prop where
  kept : ∃ code types, after = b.extend code types
  tooMany : ∀ name given, result = .error (.tooManyArguments name given) ↔
    6 < args.length ∧ name = callee.name ∧ given = args.length
  untouched : 6 < args.length → after = b
  notHostWord : ∀ ty, result = .error (.notHostWord ty) ↔
    args.length ≤ 6 ∧ ∃ k, FirstUnfit b.block.temps args k ty
  /-- Arguments before the one that is refused have been widened, and nothing else has been done. -/
  stopped : args.length ≤ 6 → ∀ k ty, FirstUnfit b.block.temps args k ty →
    after = b.compute (widenings b.block.temps (args.take k))
  called : result = .ok () ↔ args.length ≤ 6 ∧ ∀ a ∈ args, a.Fits b.block.temps
  added : result = .ok () → ∃ words,
    after = (b.compute (widenings b.block.temps args)).push
      (.call ⟨callee, none, words, none, effect⟩) ∧
    b.Passes after args words (widenings b.block.temps args)

theorem callHelper_of_many (many : 6 < args.length) :
    b.callHelper callee args effect =
      .ok (.error (.tooManyArguments callee.name args.length), b) :=
  if_pos many

theorem answers_of_many (many : 6 < args.length) :
    b.Answers callee args effect (.error (.tooManyArguments callee.name args.length)) b where
  kept := ⟨[], [], b.extend_nil.symm⟩
  tooMany name given := by
    simp only [Except.error.injEq, BuildError.tooManyArguments.injEq]
    exact ⟨fun same => ⟨many, same.1.symm, same.2.symm⟩, fun same => ⟨same.2.1.symm, same.2.2.symm⟩⟩
  untouched _ := rfl
  notHostWord ty := by simp [Nat.not_le_of_lt many]
  stopped few := absurd few (Nat.not_le_of_lt many)
  called := by simp [Nat.not_le_of_lt many]
  added absurd := by contradiction

theorem answers_of_unfit {k : Nat} {ty : Ty} (few : args.length ≤ 6)
    (first : FirstUnfit b.block.temps args k ty) :
    b.Answers callee args effect (.error (.notHostWord ty))
      (b.compute (widenings b.block.temps (args.take k))) where
  kept := ⟨_, _, rfl⟩
  tooMany name given := by simp [Nat.not_lt_of_le few]
  untouched many := absurd few (Nat.not_le_of_lt many)
  notHostWord other := by
    constructor
    · intro same
      cases same
      exact ⟨few, k, first⟩
    · rintro ⟨-, k', found⟩
      rw [(first.unique found).2]
  stopped _ k' other found := by rw [(first.unique found).1]
  called := by
    constructor
    · exact fun absurd => by contradiction
    · rintro ⟨-, fits⟩
      exact absurd fits first.not_fits
  added absurd := by contradiction

theorem answers_of_fits {words : List Atom} (few : args.length ≤ 6)
    (fits : ∀ a ∈ args, a.Fits b.block.temps) (inRange : InRange b.block.temps args)
    (widens : WidensAll b.block.temps args words (widenings b.block.temps args)) :
    b.Answers callee args effect (.ok ())
      ((b.compute (widenings b.block.temps args)).push
        (.call ⟨callee, none, words, none, effect⟩)) where
  kept := by
    rw [push_eq]
    exact ⟨_, _, b.extend_extend _ _ _ _⟩
  tooMany name given := by simp [Nat.not_lt_of_le few]
  untouched many := absurd few (Nat.not_le_of_lt many)
  notHostWord ty := by
    constructor
    · exact fun absurd => by contradiction
    · rintro ⟨-, k, first⟩
      exact absurd fits first.not_fits
  stopped _ _ _ first := absurd fits first.not_fits
  called := ⟨fun _ => ⟨few, fits⟩, fun _ => rfl⟩
  added _ := ⟨words, rfl, passes_compute inRange widens _⟩

/-- A helper is called if it takes as many arguments and each can be passed; if not, the first cause is
named. Either way it is settled what each argument becomes and what is left behind. -/
theorem callHelper_answers (b : Builder) (callee : Callee) (args : List Atom)
    (effect : Option MemoryEffect) (inRange : InRange b.block.temps args) :
    ∃ result after, b.callHelper callee args effect = .ok (result, after) ∧
      b.Answers callee args effect result after := by
  by_cases many : 6 < args.length
  · exact ⟨_, _, callHelper_of_many many, answers_of_many many⟩
  have few : args.length ≤ 6 := Nat.le_of_not_lt many
  rcases inRange.fits_or with fits | ⟨k, ty, first⟩
  · obtain ⟨words, values, widens, done⟩ := @callHelper_of_fits b args callee effect few fits
    cases widens.values_eq inRange
    exact ⟨_, _, done, answers_of_fits few fits inRange widens⟩
  · obtain ⟨a, given, typed, -⟩ := first.exists_atom
    have early : InRange b.block.temps (args.take k) :=
      fun other member => inRange other (List.mem_of_mem_take member)
    have split : args.take k ++ a :: args.drop (k + 1) = args := by
      obtain ⟨inside, rfl⟩ := List.getElem?_eq_some_iff.1 given
      rw [← List.drop_eq_getElem_cons inside, List.take_append_drop]
    obtain ⟨words, values, widens, done⟩ := @callHelper_of_unfit b a ty _ callee effect _
      first.earlier typed first.unfit (split.symm ▸ few)
    cases widens.values_eq early
    rw [split] at done
    exact ⟨_, _, done, answers_of_unfit few first⟩

def mixedArgs : List Atom :=
  [.temp ⟨0⟩, .const (.i8 5), .temp ⟨1⟩]

def mixedBuilder : Builder :=
  ⟨{ SuperBlock.empty 184 with temps := [.i32, .i64] }, Layout.of .amd64⟩

theorem callHelper_answers_mixedArgs :
    ∃ after, mixedBuilder.callHelper ⟨"note", 0x1000⟩ mixedArgs none = .ok (.ok (), after) ∧
      mixedBuilder.Passes after mixedArgs [.temp ⟨2⟩, .const (.i64 5), .temp ⟨1⟩]
        [⟨.i64, .unop .widen32U (.temp ⟨0⟩)⟩] := by
  have inRange : InRange mixedBuilder.block.temps mixedArgs := by
    unfold InRange
    decide
  obtain ⟨result, after, done, answers⟩ :=
    mixedBuilder.callHelper_answers ⟨"note", 0x1000⟩ mixedArgs none inRange
  cases done
  obtain ⟨words, same, passes⟩ := answers.added rfl
  have called := congrArg (fun b : Builder => b.block.stmts.getLast?) same
  cases called
  exact ⟨_, rfl, passes⟩

end Builder

end Overrun.Guest
