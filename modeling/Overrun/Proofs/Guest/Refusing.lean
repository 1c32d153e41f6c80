import Overrun.Proofs.Guest.Valuation

/-! Which helpers are called and which are not. Arguments are widened from the first on, up to one whose
type is that of no host word, and what was computed for those before it stays. -/

namespace Overrun.Guest

def Ty.isHostWord : Ty → Bool
  | i8 | i16 | i32 | i64 => true
  | i1 | i128 | f32 | f64 | v128 => false

theorem UnOp.isSome_widening? (ty : Ty) :
    (widening? ty).isSome = true ↔ ty.isHostWord = true ∧ ty ≠ .i64 := by
  cases ty <;> decide

theorem UnOp.widening?_eq_none {ty : Ty} (unfit : ty.isHostWord = false) : widening? ty = none := by
  cases ty <;> first | rfl | contradiction

def Atom.Fits (temps : List Ty) (a : Atom) : Prop :=
  ∃ ty, a.ty? temps = some ty ∧ ty.isHostWord = true

theorem Atom.Fits.append {temps : List Ty} {a : Atom} (fits : a.Fits temps) (more : List Ty) :
    a.Fits (temps ++ more) := by
  obtain ⟨ty, typed, word⟩ := fits
  exact ⟨ty, Atom.ty?_append typed more, word⟩

theorem fits_word (temps : List Ty) (word : UInt64) : Atom.Fits temps (.const (.i64 word)) :=
  ⟨.i64, rfl, rfl⟩

namespace Builder

variable {b : Builder} {a : Atom} {ty : Ty} {early args : List Atom} {callee : Callee}
  {effect : Option MemoryEffect}

theorem widen_of_fits (fits : a.Fits b.block.temps) :
    ∃ word values, Widens b.block.temps a word values ∧
      b.widen a = .ok (.ok word, b.compute values) := by
  obtain ⟨ty, typed, hostWord⟩ := fits
  have done : ∃ word after, b.widen a = .ok (.ok word, after) := by
    unfold widen
    rw [SuperBlock.atomTy_eq_ok_iff.2 typed]
    by_cases wide : ty = .i64
    · exact ⟨_, _, if_pos wide⟩
    · obtain ⟨op, narrow⟩ := Option.isSome_iff_exists.1 ((UnOp.isSome_widening? ty).2 ⟨hostWord, wide⟩)
      show ∃ word after, (if ty = .i64 then _ else _) = _
      rw [if_neg wide, narrow]
      cases a with
      | const c => exact ⟨_, _, rfl⟩
      | temp t => exact ⟨_, _, rfl⟩
  obtain ⟨word, after, done⟩ := done
  obtain ⟨values, widens, rfl⟩ := widen_ok done
  exact ⟨word, values, widens, done⟩

theorem widen_of_unfit (typed : a.ty? b.block.temps = some ty) (unfit : ty.isHostWord = false) :
    b.widen a = .ok (.error (.notHostWord ty), b) := by
  have narrow : ty ≠ .i64 := fun wide => by
    rw [wide] at unfit
    contradiction
  unfold widen
  rw [SuperBlock.atomTy_eq_ok_iff.2 typed]
  show (if ty = .i64 then _ else _) = _
  rw [if_neg narrow, UnOp.widening?_eq_none unfit]
  rfl

theorem widenAll_cons_of_ok {word : Atom} {after : Builder} {rest : List Atom}
    (done : b.widen a = .ok (.ok word, after)) :
    b.widenAll (a :: rest) = (after.widenAll rest).map (Prod.map (Except.map (word :: ·)) id) := by
  show (b.widen a >>= _) = _
  rw [done]
  show (after.widenAll rest >>= _) = _
  rcases after.widenAll rest with fault | ⟨⟨e⟩ | words, last⟩ <;> rfl

theorem widenAll_cons_of_error {e : BuildError} {after : Builder} {rest : List Atom}
    (done : b.widen a = .ok (.error e, after)) : b.widenAll (a :: rest) = .ok (.error e, after) := by
  show (b.widen a >>= _) = _
  rw [done]
  rfl

theorem widenAll_append (fits : ∀ a ∈ early, a.Fits b.block.temps) :
    ∃ words values, WidensAll b.block.temps early words values ∧ ∀ rest,
      b.widenAll (early ++ rest) =
        ((b.compute values).widenAll rest).map (Prod.map (Except.map (words ++ ·)) id) := by
  induction early generalizing b with
  | nil =>
    refine ⟨[], [], .nil, fun rest => ?_⟩
    have same : b.compute [] = b := b.extend_nil
    rw [same, List.nil_append]
    rcases b.widenAll rest with fault | ⟨⟨e⟩ | words, after⟩ <;> rfl
  | cons a early ih =>
    obtain ⟨word, values, widens, done⟩ := widen_of_fits (fits a List.mem_cons_self)
    obtain ⟨words, more, all, onward⟩ := @ih (b.compute values) fun other member =>
      (fits other (List.mem_cons_of_mem _ member)).append _
    refine ⟨word :: words, values ++ more, .cons widens all, fun rest => ?_⟩
    rw [List.cons_append, widenAll_cons_of_ok done, onward rest, ← compute_compute]
    rcases ((b.compute values).compute more).widenAll rest with fault | ⟨⟨e⟩ | others, after⟩ <;> rfl

theorem callHelper_of_fits (few : args.length ≤ maxHelperArgs)
    (fits : ∀ a ∈ args, a.Fits b.block.temps) :
    ∃ words values, WidensAll b.block.temps args words values ∧
      b.callHelper callee args effect =
        .ok (.ok (), (b.compute values).push (.call ⟨callee, none, words, none, effect⟩)) := by
  obtain ⟨words, values, widens, onward⟩ := widenAll_append fits
  refine ⟨words, values, widens, ?_⟩
  have all : b.widenAll args = .ok (.ok words, b.compute values) := by
    rw [← args.append_nil, onward []]
    show Except.ok (Except.ok (words ++ []), b.compute values) = _
    rw [List.append_nil]
  unfold callHelper
  rw [if_neg (Nat.not_lt_of_le few), all]
  rfl

/-- A helper is not called if there is an argument that can't be passed. The first of those is named. -/
theorem callHelper_of_unfit {rest : List Atom} (fits : ∀ a ∈ early, a.Fits b.block.temps)
    (typed : a.ty? b.block.temps = some ty) (unfit : ty.isHostWord = false)
    (few : (early ++ a :: rest).length ≤ maxHelperArgs) :
    ∃ words values, WidensAll b.block.temps early words values ∧
      b.callHelper callee (early ++ a :: rest) effect =
        .ok (.error (.notHostWord ty), b.compute values) := by
  obtain ⟨words, values, widens, onward⟩ := widenAll_append fits
  refine ⟨words, values, widens, ?_⟩
  have refused : (b.compute values).widen a = .ok (.error (.notHostWord ty), b.compute values) :=
    widen_of_unfit (Atom.ty?_append typed _) unfit
  unfold callHelper
  rw [if_neg (Nat.not_lt_of_le few), onward (a :: rest), widenAll_cons_of_error refused]
  rfl

end Builder

end Overrun.Guest
