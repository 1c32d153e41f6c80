import Overrun.Checker.Instrumentation
import Overrun.Proofs.Faults

/-! What instrumenting a block comes to, case by case: for a memory reference, for a statement, for a run of
them, for the end of the block and for the whole. -/

namespace Overrun.Checker

open Guest

variable {env : Environment} {c : Checker} {source : SuperBlock} {layout : Layout} {hook : Callee}
  {hooks : Hooks}

namespace Copying

variable {p q : Copying} {index : Nat} {stmt : Stmt} {rest : List Stmt} {ref : MemoryRef}
  {r : Except InstrumentError Unit}

inductive Meets (hook : Callee) (p : Copying) (index : Nat) (ref : MemoryRef) :
    Except InstrumentError Unit → Copying → Prop where
  | unmarked (nowhere : p.current = none) :
      Meets hook p index ref (.error (.accessBeforeMark index)) p
  | again {current : CurrentInstruction} (here : p.current = some current)
      (referenced : current.referenced = true) : Meets hook p index ref (.ok ()) p
  | silent {current : CurrentInstruction} (here : p.current = some current)
      (fresh : current.referenced = false) (silent : current.suppressed = true) :
      Meets hook p index ref (.ok ()) { p with current := some { current with referenced := true } }
  | watched {current : CurrentInstruction} {inserted : Except BuildError Unit} {b : Builder}
      (here : p.current = some current) (fresh : current.referenced = false)
      (watched : current.suppressed = false)
      (inserting : insertAccessHook p.builder hook ref current.address current.vector =
        .ok (inserted, b)) :
      Meets hook p index ref (inserted.mapError .build)
        { p with current := some { current with referenced := true }, builder := b }

theorem meet_eq_ok_iff : p.meet hook index ref = .ok (r, q) ↔ Meets hook p index ref r q := by
  constructor
  · intro done
    unfold meet at done
    split at done
    · next nowhere =>
      cases done
      exact .unmarked nowhere
    · next current here =>
      split at done
      · next referenced =>
        cases done
        exact .again here referenced
      · next fresh =>
        dsimp only at done
        split at done
        · next silent =>
          cases done
          exact .silent here (Bool.eq_false_iff.2 fresh) silent
        · next loud =>
          obtain ⟨⟨inserted, b⟩, inserting, same⟩ := bind_eq_ok.1 done
          cases same
          exact .watched here (Bool.eq_false_iff.2 fresh) (Bool.eq_false_iff.2 loud) inserting
  · intro meets
    unfold meet
    cases meets with
    | unmarked nowhere => rw [nowhere]
    | again here referenced =>
      rw [here]
      exact if_pos referenced
    | silent here fresh silent =>
      rw [here]
      dsimp only
      rw [fresh, silent]
      rfl
    | watched here fresh watched inserting =>
      rw [here]
      dsimp only
      rw [fresh, watched]
      exact bind_eq_ok.2 ⟨_, inserting, rfl⟩

theorem meet_frame (done : p.meet hook index ref = .ok (r, q)) :
    q.checker = p.checker ∧ q.events = p.events ∧ (q.current = none ↔ p.current = none) := by
  cases meet_eq_ok_iff.1 done with
  | unmarked | again => exact ⟨rfl, rfl, Iff.rfl⟩
  | silent here | watched here =>
    rw [here]
    exact ⟨rfl, rfl, by simp⟩

inductive Copies (env : Environment) (source : SuperBlock) (hook : Callee) (p : Copying) (index : Nat)
    (stmt : Stmt) : Except InstrumentError Unit → Copying → Prop where
  | zero {mark : SuperBlock.Mark} (marked : SuperBlock.mark? stmt = some mark)
      (zero : mark.address = 0) :
      Copies env source hook p index stmt (.error (.zeroAddress mark.address)) p
  | enter {mark : SuperBlock.Mark} (marked : SuperBlock.mark? stmt = some mark)
      (there : mark.address ≠ 0) :
      Copies env source hook p index stmt (.ok ()) ((p.enter env mark.address).push stmt)
  | idle (unmarked : SuperBlock.mark? stmt = none)
      (referring : memoryRef? source stmt = .ok none) :
      Copies env source hook p index stmt (.ok ()) (p.push stmt)
  | reference {ref : MemoryRef} {r : Except InstrumentError Unit} {middle : Copying}
      (unmarked : SuperBlock.mark? stmt = none)
      (referring : memoryRef? source stmt = .ok (some ref))
      (meeting : p.meet hook index ref = .ok (r, middle)) :
      Copies env source hook p index stmt r (middle.push stmt)

theorem copy_eq_ok_iff :
    p.copy env source hook index stmt = .ok (r, q) ↔ Copies env source hook p index stmt r q := by
  constructor
  · intro done
    unfold copy at done
    split at done
    · next mark marked =>
      split at done
      · next zero =>
        cases done
        exact .zero marked zero
      · next there =>
        cases done
        exact .enter marked there
    · next unmarked =>
      obtain ⟨reference, referring, done⟩ := bind_eq_ok.1 done
      cases reference with
      | none =>
        cases done
        exact .idle unmarked referring
      | some ref =>
        obtain ⟨⟨met, middle⟩, meeting, same⟩ := bind_eq_ok.1 done
        cases same
        exact .reference unmarked referring meeting
  · intro copies
    unfold copy
    cases copies with
    | zero marked zero =>
      rw [marked]
      exact if_pos zero
    | enter marked there =>
      rw [marked]
      exact if_neg there
    | idle unmarked referring =>
      rw [unmarked]
      exact bind_eq_ok.2 ⟨none, referring, rfl⟩
    | reference unmarked referring meeting =>
      rw [unmarked]
      exact bind_eq_ok.2 ⟨_, referring, bind_eq_ok.2 ⟨_, meeting, rfl⟩⟩

theorem copyAll_nil_eq_ok_iff :
    p.copyAll env source hook index [] = .ok (r, q) ↔ r = .ok () ∧ q = p := by
  unfold copyAll
  rw [Except.ok.injEq, Prod.mk.injEq]
  exact and_congr eq_comm eq_comm

theorem copyAll_cons_eq_ok_iff :
    p.copyAll env source hook index (stmt :: rest) = .ok (r, q) ↔
      (∃ e, p.copy env source hook index stmt = .ok (.error e, q) ∧ r = .error e) ∨
        ∃ middle, p.copy env source hook index stmt = .ok (.ok (), middle) ∧
          middle.copyAll env source hook (index + 1) rest = .ok (r, q) := by
  constructor
  · intro done
    unfold copyAll at done
    obtain ⟨⟨copied, middle⟩, copying, done⟩ := bind_eq_ok.1 done
    cases copied with
    | error e =>
      cases done
      exact .inl ⟨e, copying, rfl⟩
    | ok => exact .inr ⟨middle, copying, done⟩
  · rintro (⟨e, copying, rfl⟩ | ⟨middle, copying, onward⟩)
    · exact bind_eq_ok.2 ⟨_, copying, rfl⟩
    · exact bind_eq_ok.2 ⟨_, copying, onward⟩

/-- What is so of each step on the way is so of the whole way. -/
theorem copyAll_induct {R : Copying → Copying → Prop} (refl : ∀ p, R p p)
    (trans : ∀ {p middle q}, R p middle → R middle q → R p q)
    (step : ∀ {p q index stmt r}, p.copy env source hook index stmt = .ok (r, q) → R p q)
    {stmts : List Stmt} (done : p.copyAll env source hook index stmts = .ok (r, q)) : R p q := by
  induction stmts generalizing p index with
  | nil =>
    obtain ⟨-, rfl⟩ := copyAll_nil_eq_ok_iff.1 done
    exact refl q
  | cons stmt rest ih =>
    rcases copyAll_cons_eq_ok_iff.1 done with ⟨e, copying, -⟩ | ⟨middle, copying, onward⟩
    · exact step copying
    · exact trans (step copying) (ih onward)

inductive Ends (env : Environment) (source : SuperBlock) (hook : Callee) (p : Copying) :
    Except InstrumentError Unit → Copying → Prop where
  | plain (plain : source.endsInCall = false) : Ends env source hook p (.ok ()) p
  | unmarked (ends : source.endsInCall = true) (none : source.lastMark? = none) :
      Ends env source hook p (.error .callWithoutMark) p
  | call {mark : SuperBlock.Mark} {found : Outcome VectorRef} {inserted : Except BuildError Unit}
      {b : Builder} (ends : source.endsInCall = true) (final : source.lastMark? = some mark)
      (lookup : p.checker.vectorAt env mark.address = found)
      (inserting : insertCallHook p.builder hook (mark.address + mark.length.toUInt64) found.value
        (spAdjust p.builder.layout found.checker.target.architecture) = .ok (inserted, b)) :
      Ends env source hook p (inserted.mapError .build)
        { p with checker := found.checker, builder := b, events := p.events ++ found.events }

theorem close_eq_ok_iff :
    p.close env source hook = .ok (r, q) ↔ Ends env source hook p r q := by
  constructor
  · intro done
    unfold close at done
    split at done
    · next ends =>
      split at done
      · next none =>
        cases done
        exact .unmarked ends none
      · next mark final =>
        obtain ⟨⟨inserted, b⟩, inserting, same⟩ := bind_eq_ok.1 done
        cases same
        exact .call ends final rfl inserting
    · next plain =>
      cases done
      exact .plain (Bool.eq_false_iff.2 plain)
  · intro ends
    unfold close
    cases ends with
    | plain plain =>
      rw [plain]
      rfl
    | unmarked ends none =>
      rw [ends, none]
      rfl
    | call ends final lookup inserting =>
      subst lookup
      rw [ends, final]
      exact bind_eq_ok.2 ⟨_, inserting, rfl⟩

end Copying

inductive Instruments (env : Environment) (c : Checker) (source : SuperBlock) (layout : Layout)
    (hooks : Hooks) : Outcome (Except InstrumentError SuperBlock) → Prop where
  | foreign (apart : layout.architecture ≠ c.target.architecture) :
      Instruments env c source layout hooks
        ⟨.error (.architectureMismatch layout.architecture c.target.architecture), c, []⟩
  | refused {e : InstrumentError} {p : Copying}
      (fitting : layout.architecture = c.target.architecture)
      (copying : Copying.copyAll env source hooks.access ⟨c, .ofTemplate source layout, none, []⟩ 0
        source.stmts = .ok (.error e, p)) :
      Instruments env c source layout hooks ⟨.error e, p.checker, p.events⟩
  | unclosed {e : InstrumentError} {p q : Copying}
      (fitting : layout.architecture = c.target.architecture)
      (copying : Copying.copyAll env source hooks.access ⟨c, .ofTemplate source layout, none, []⟩ 0
        source.stmts = .ok (.ok (), p))
      (closing : p.close env source hooks.call = .ok (.error e, q)) :
      Instruments env c source layout hooks ⟨.error e, q.checker, q.events⟩
  | made {p q : Copying} (fitting : layout.architecture = c.target.architecture)
      (copying : Copying.copyAll env source hooks.access ⟨c, .ofTemplate source layout, none, []⟩ 0
        source.stmts = .ok (.ok (), p))
      (closing : p.close env source hooks.call = .ok (.ok (), q)) :
      Instruments env c source layout hooks
        ⟨.ok q.builder.block, q.checker, q.events ++ [.instrumented q.builder.block]⟩

theorem instrument_eq_ok_iff {o : Outcome (Except InstrumentError SuperBlock)} :
    c.instrument env source layout hooks = .ok o ↔ Instruments env c source layout hooks o := by
  constructor
  · intro done
    unfold instrument at done
    split at done
    · next fitting =>
      obtain ⟨⟨copied, p⟩, copying, done⟩ := bind_eq_ok.1 done
      cases copied with
      | error e =>
        cases done
        exact .refused fitting copying
      | ok =>
        obtain ⟨⟨closed, q⟩, closing, done⟩ := bind_eq_ok.1 done
        cases closed with
        | error e =>
          cases done
          exact .unclosed fitting copying closing
        | ok =>
          cases done
          exact .made fitting copying closing
    · next apart =>
      cases done
      exact .foreign apart
  · intro instruments
    unfold instrument
    cases instruments with
    | foreign apart => exact if_neg apart
    | refused fitting copying =>
      rw [if_pos fitting]
      exact bind_eq_ok.2 ⟨_, copying, rfl⟩
    | unclosed fitting copying closing | made fitting copying closing =>
      rw [if_pos fitting]
      exact bind_eq_ok.2 ⟨_, copying, bind_eq_ok.2 ⟨_, closing, rfl⟩⟩

end Overrun.Checker
