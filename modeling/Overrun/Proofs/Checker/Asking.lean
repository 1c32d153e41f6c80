import Overrun.Proofs.Checker.Known
import Overrun.Proofs.Checker.Logging
import Overrun.Proofs.Checker.Reachable

/-! The debug information is asked for the blocks of an instruction when its vector is looked up for the
first time, by whatever operation, and at no other time. -/

namespace Overrun

theorem Event.consultations_append (events more : List Event) :
    consultations (events ++ more) = consultations events ++ consultations more :=
  List.filterMap_append

namespace Checker

variable {c after last : Checker} {env : Environment} {questions more : List UInt64}

/-- What comes of asking for the blocks of instructions one after another: none was known before or is
asked for twice, and all are known from then on. -/
structure Asks (c : Checker) (asked : List UInt64) (after : Checker) : Prop where
  retained : Retained c after
  once : asked.Nodup
  new : ∀ instruction ∈ asked, c.vectors.lookup instruction = none
  known : ∀ instruction ∈ asked, after.vectors.lookup instruction ≠ none

theorem Retained.asks (retained : Retained c after) : Asks c [] after :=
  ⟨retained, .nil, fun _ absurd => by contradiction, fun _ absurd => by contradiction⟩

theorem Retained.new {instruction : UInt64} (retained : Retained c after)
    (new : after.vectors.lookup instruction = none) : c.vectors.lookup instruction = none := by
  cases before : c.vectors.lookup instruction with
  | none => rfl
  | some v =>
    rw [retained.known instruction v before] at new
    contradiction

theorem Asks.trans (first : Asks c questions after) (second : Asks after more last) :
    Asks c (questions ++ more) last where
  retained := first.retained.trans second.retained
  once := by
    refine List.nodup_append.2 ⟨first.once, second.once, fun a early b late same => ?_⟩
    exact first.known a early (same ▸ second.new b late)
  new instruction member := by
    rcases List.mem_append.1 member with early | late
    · exact first.new instruction early
    · exact first.retained.new (second.new instruction late)
  known instruction member := by
    rcases List.mem_append.1 member with early | late
    · intro unknown
      exact first.known instruction early (second.retained.new unknown)
    · exact second.known instruction late

theorem vectorAt_asks (env : Environment) (c : Checker) (instruction : UInt64) :
    Asks c (Event.consultations (c.vectorAt env instruction).events)
      (c.vectorAt env instruction).checker := by
  have retained := vectorAt_retained env c instruction
  have found := vectorAt_lookup env c instruction instruction
  rw [if_pos rfl] at found
  cases before : c.vectors.lookup instruction with
  | some v =>
    have quiet : (c.vectorAt env instruction).events = [] := by
      unfold vectorAt
      rw [before]
    rw [quiet]
    exact retained.asks
  | none =>
    have asks : (c.vectorAt env instruction).events = [.consulted instruction] := by
      unfold vectorAt
      rw [before]
    rw [asks]
    refine ⟨retained, List.pairwise_singleton _ _, fun other member => ?_, fun other member => ?_⟩
    · rw [List.mem_singleton.1 member]
      exact before
    · rw [List.mem_singleton.1 member, found]
      exact Option.some_ne_none _

namespace Copying

variable {source : Guest.SuperBlock} {hook : Guest.Callee} {p q : Copying}
  {r : Except InstrumentError Unit}

def AsksOn (p q : Copying) : Prop :=
  ∃ more, q.events = p.events ++ more ∧ Asks p.checker (Event.consultations more) q.checker

theorem asksOn_of_eq (checker : q.checker = p.checker) (events : q.events = p.events) :
    AsksOn p q := by
  refine ⟨[], events.trans (List.append_nil _).symm, ?_⟩
  rw [checker]
  exact (Retained.refl _).asks

theorem AsksOn.trans {last : Copying} (first : AsksOn p q) (second : AsksOn q last) :
    AsksOn p last := by
  obtain ⟨early, before, asks⟩ := first
  obtain ⟨late, after, asksToo⟩ := second
  refine ⟨early ++ late, ?_, ?_⟩
  · rw [after, before, List.append_assoc]
  · rw [Event.consultations_append]
    exact asks.trans asksToo

theorem copy_asksOn {index : Nat} {stmt : Guest.Stmt}
    (done : p.copy env source hook index stmt = .ok (r, q)) : AsksOn p q := by
  cases copy_eq_ok_iff.1 done with
  | zero => exact asksOn_of_eq rfl rfl
  | @enter mark => exact ⟨_, rfl, vectorAt_asks env p.checker mark.address⟩
  | idle => exact asksOn_of_eq rfl rfl
  | reference _ _ meeting =>
    obtain ⟨checker, events, -⟩ := meet_frame meeting
    exact asksOn_of_eq checker events

theorem copyAll_asksOn {index : Nat} {stmts : List Guest.Stmt}
    (done : p.copyAll env source hook index stmts = .ok (r, q)) : AsksOn p q :=
  copyAll_induct (fun _ => asksOn_of_eq rfl rfl) AsksOn.trans copy_asksOn done

theorem close_asksOn (done : p.close env source hook = .ok (r, q)) : AsksOn p q := by
  cases close_eq_ok_iff.1 done with
  | plain | unmarked => exact asksOn_of_eq rfl rfl
  | @call mark found _ _ _ _ lookup =>
    subst lookup
    exact ⟨_, rfl, vectorAt_asks env p.checker mark.address⟩

theorem AsksOn.start {b : Guest.Builder} (asks : AsksOn ⟨c, b, none, []⟩ q) :
    Asks c (Event.consultations q.events) q.checker := by
  obtain ⟨more, same, asks⟩ := asks
  rw [same]
  exact asks

end Copying

theorem instrument_asks {source : Guest.SuperBlock} {layout : Guest.Layout} {hooks : Hooks}
    {o : Outcome (Except InstrumentError Guest.SuperBlock)}
    (done : c.instrument env source layout hooks = .ok o) :
    Asks c (Event.consultations o.events) o.checker := by
  cases instrument_eq_ok_iff.1 done with
  | foreign => exact (Retained.refl c).asks
  | refused _ copying => exact (Copying.copyAll_asksOn copying).start
  | unclosed _ copying closing =>
    exact ((Copying.copyAll_asksOn copying).trans (Copying.close_asksOn closing)).start
  | @made p q _ copying closing =>
    -- The block that comes of it is logged, and that is no question.
    have logged : Event.consultations (q.events ++ [.instrumented q.builder.block]) =
        Event.consultations q.events :=
      (Event.consultations_append _ _).trans (List.append_nil _)
    rw [logged]
    exact ((Copying.copyAll_asksOn copying).trans (Copying.close_asksOn closing)).start

theorem WellFormed.step_asks (wf : c.WellFormed) {op : Operation} {o : Outcome Reply}
    (done : c.step env op = .ok o) : Asks c (Event.consultations o.events) o.checker := by
  have retained := (wf.step_changed done).retained.1
  have quiet : Event.consultations o.events = [] → Asks c (Event.consultations o.events) o.checker := by
    intro none
    rw [none]
    exact retained.asks
  cases wf.stepped done with
  | vectorAt instruction => exact vectorAt_asks env c instruction
  | instrument instrumented => exact instrument_asks instrumented
  | access _ _ _ _ reported =>
    apply quiet
    rcases reportVerdict_ok_iff.1 reported with ⟨-, d, -, rfl⟩ | ⟨-, rfl⟩ <;> rfl
  | _ => exact quiet (Event.consultations_of_plain (wf.step_plain done trivial))

def asked (c : Checker) : List (Environment × Operation) → List UInt64
  | [] => []
  | (env, op) :: rest =>
    match c.step env op with
    | .ok o => Event.consultations o.events ++ asked o.checker rest
    | .error _ => []

theorem WellFormed.run_asks (wf : c.WellFormed) {ops : List (Environment × Operation)}
    {replies : List Reply} (ran : c.run ops = .ok (after, replies)) :
    Asks c (c.asked ops) after := by
  induction ops generalizing c replies with
  | nil =>
    cases ran
    exact (Retained.refl _).asks
  | cons first rest ih =>
    obtain ⟨env, op⟩ := first
    obtain ⟨o, stepped, ran⟩ := bind_eq_ok.1 ran
    obtain ⟨⟨last, later⟩, onward, same⟩ := bind_eq_ok.1 ran
    cases same
    unfold asked
    rw [stepped]
    exact (wf.step_asks stepped).trans (ih (wf.step stepped) onward)

end Checker

end Overrun
