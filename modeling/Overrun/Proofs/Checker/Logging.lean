import Overrun.Proofs.Checker.Copying
import Overrun.Proofs.Checker.Effects

/-! What operations write to the log. Vectors are looked up with a question to the debug information, and
a mismatch is noted when an access is reported. All else that is logged is plain. -/

namespace Overrun

namespace Event

def isPlain : Event → Bool
  | consulted _ | mismatched .. => false
  | _ => true

def mismatches (events : List Event) : List (ThreadId × String) :=
  events.filterMap fun
    | mismatched tid summary => some (tid, summary)
    | _ => none

variable {events : List Event}

theorem consultations_of_plain (plain : events.all isPlain = true) : consultations events = [] := by
  refine List.filterMap_eq_nil_iff.2 fun e member => ?_
  have plain := List.all_eq_true.1 plain e member
  cases e with
  | consulted => contradiction
  | _ => rfl

theorem mismatches_of_plain (plain : events.all isPlain = true) : mismatches events = [] := by
  refine List.filterMap_eq_nil_iff.2 fun e member => ?_
  have plain := List.all_eq_true.1 plain e member
  cases e with
  | mismatched => contradiction
  | _ => rfl

theorem mismatches_append (events more : List Event) :
    mismatches (events ++ more) = mismatches events ++ mismatches more :=
  List.filterMap_append

theorem plain_append {more : List Event} (early : events.all isPlain = true)
    (late : more.all isPlain = true) : (events ++ more).all isPlain = true := by
  rw [List.all_append, early, late]
  rfl

end Event

section Threads

variable {tid : ThreadId} {hook : CallHook} {sp : UInt64} {t : Thread}

theorem registerBlocks_plain {depth index : Nat} {map : IntervalMap Registration}
    {blocks : List StackBlock} {r : Registered}
    (done : registerBlocks tid hook depth index map blocks = .ok r) :
    r.events.all Event.isPlain = true := by
  induction blocks generalizing index map r with
  | nil =>
    cases done
    rfl
  | cons block rest ih =>
    unfold registerBlocks at done
    dsimp only at done
    split at done
    · obtain ⟨later, registered, same⟩ := bind_eq_ok.1 done
      cases same
      have plain := ih registered
      exact plain
    · split at done
      · contradiction
      · obtain ⟨later, registered, same⟩ := bind_eq_ok.1 done
        cases same
        have plain := ih registered
        exact plain

theorem Thread.call_plain {blocks : List StackBlock} {called : Thread.Called}
    (done : t.call tid hook blocks = .ok called) : called.events.all Event.isPlain = true := by
  obtain ⟨r, registered, same⟩ := bind_eq_ok.1 done
  cases same
  exact Event.plain_append (registerBlocks_plain registered) rfl

theorem Thread.popAbove_plain {map : IntervalMap Registration} {hits : RecentHits Registration}
    {callee : Activation} {below : List Activation} {u : Thread.Unwound}
    (done : popAbove tid sp map hits callee below = .ok u) : u.events.all Event.isPlain = true := by
  induction below generalizing map hits callee u with
  | nil =>
    unfold popAbove at done
    split at done
    · contradiction
    · cases done
      rfl
  | cons caller below ih =>
    unfold popAbove at done
    split at done
    · obtain ⟨left, -, done⟩ := bind_eq_ok.1 done
      obtain ⟨v, popped, same⟩ := bind_eq_ok.1 done
      cases same
      have plain := ih popped
      exact plain
    · cases done
      rfl

end Threads

def Operation.Plain : Operation → Prop
  | access .. | vectorAt _ | instrument .. => False
  | _ => True

namespace Checker

variable {c : Checker} {env : Environment}

theorem registerGlobals_plain (c : Checker) (blocks : List GlobalBlock) :
    (c.registerGlobals blocks).events.all Event.isPlain = true := by
  induction blocks generalizing c with
  | nil => rfl
  | cons block rest ih =>
    unfold registerGlobals
    split
    · exact ih c
    · dsimp only
      split
      · exact ih _
      · split
        · exact ih _
        · exact ih _

theorem loadGlobals_plain {handle : UInt64} {o : Outcome Unit}
    (done : c.loadGlobals env handle = .ok o) : o.events.all Event.isPlain = true := by
  rw [loadGlobals_eq] at done
  obtain ⟨checked, -, loaded⟩ := bind_eq_ok.1 done
  cases loaded
  exact Event.plain_append (registerGlobals_plain _ _) rfl

theorem unmap_plain {region : Span} {o : Outcome Unit} (done : c.unmap region = .ok o) :
    o.events.all Event.isPlain = true := by
  cases fits : Interval.clamped? region.start region.size with
  | none =>
    rw [unmap_nowhere fits] at done
    cases done
    rfl
  | some range =>
    cases none : (c.globals.takeRange range).1.isEmpty with
    | true =>
      rw [unmap_spared fits none] at done
      cases done
      rfl
    | false =>
      rw [unmap_eq fits none] at done
      obtain ⟨checked, -, done⟩ := bind_eq_ok.1 done
      cases done
      rfl

theorem WellFormed.step_plain (wf : c.WellFormed) {op : Operation} {o : Outcome Reply}
    (done : c.step env op = .ok o) (plain : op.Plain) : o.events.all Event.isPlain = true := by
  cases wf.stepped done with
  | access | vectorAt | instrument => contradiction
  | createThread | startThread => rfl
  | classify | internVector | takeDiagnostics => rfl
  | exitThread tid =>
    show (c.exitThread tid).events.all Event.isPlain = true
    unfold Checker.exitThread
    split
    · rfl
    · rfl
  | call _ _ calling => exact Thread.call_plain calling
  | unwind _ unwinding => exact Thread.popAbove_plain unwinding
  | loadGlobals =>
    obtain ⟨result, loaded, same⟩ := map_eq_ok.1 done
    have told := congrArg Outcome.events same
    exact told ▸ loadGlobals_plain loaded
  | unmap =>
    obtain ⟨result, unmapped, same⟩ := map_eq_ok.1 done
    have told := congrArg Outcome.events same
    exact told ▸ unmap_plain unmapped
  | summarize =>
    show c.summarize.events.all Event.isPlain = true
    unfold Checker.summarize
    dsimp only
    split
    · rfl
    · rfl

theorem vectorAt_mismatches (env : Environment) (c : Checker) (instruction : UInt64) :
    Event.mismatches (c.vectorAt env instruction).events = [] := by
  unfold vectorAt
  split <;> rfl

namespace Copying

variable {source : Guest.SuperBlock} {hook : Guest.Callee} {p q : Copying}
  {r : Except InstrumentError Unit}

theorem copy_mismatches {index : Nat} {stmt : Guest.Stmt}
    (done : p.copy env source hook index stmt = .ok (r, q)) :
    Event.mismatches q.events = Event.mismatches p.events := by
  cases copy_eq_ok_iff.1 done with
  | zero | idle => rfl
  | @enter mark =>
    refine (Event.mismatches_append _ _).trans ?_
    rw [vectorAt_mismatches, List.append_nil]
  | reference _ _ meeting =>
    obtain ⟨-, events, -⟩ := meet_frame meeting
    exact congrArg Event.mismatches events

theorem copyAll_mismatches {index : Nat} {stmts : List Guest.Stmt}
    (done : p.copyAll env source hook index stmts = .ok (r, q)) :
    Event.mismatches q.events = Event.mismatches p.events :=
  copyAll_induct (R := fun p q => Event.mismatches q.events = Event.mismatches p.events)
    (fun _ => rfl) (fun first second => second.trans first) copy_mismatches done

theorem close_mismatches (done : p.close env source hook = .ok (r, q)) :
    Event.mismatches q.events = Event.mismatches p.events := by
  cases close_eq_ok_iff.1 done with
  | plain | unmarked => rfl
  | call _ _ lookup =>
    subst lookup
    refine (Event.mismatches_append _ _).trans ?_
    rw [vectorAt_mismatches, List.append_nil]

end Copying

theorem instrument_mismatches {source : Guest.SuperBlock} {layout : Guest.Layout} {hooks : Hooks}
    {o : Outcome (Except InstrumentError Guest.SuperBlock)}
    (done : c.instrument env source layout hooks = .ok o) : Event.mismatches o.events = [] := by
  cases instrument_eq_ok_iff.1 done with
  | foreign => rfl
  | refused _ copying => exact Copying.copyAll_mismatches copying
  | unclosed _ copying closing =>
    exact (Copying.close_mismatches closing).trans (Copying.copyAll_mismatches copying)
  | made _ copying closing =>
    refine (Event.mismatches_append _ _).trans ?_
    rw [Copying.close_mismatches closing, Copying.copyAll_mismatches copying]
    rfl

theorem WellFormed.step_mismatches (wf : c.WellFormed) {op : Operation} {o : Outcome Reply}
    (elsewhere : ∀ tid hook, op ≠ .access tid hook) (done : c.step env op = .ok o) :
    Event.mismatches o.events = [] := by
  cases wf.stepped done with
  | @access tid hook => exact absurd rfl (elsewhere tid hook)
  | vectorAt instruction => exact vectorAt_mismatches env c instruction
  | instrument instrumented => exact instrument_mismatches instrumented
  | _ => exact Event.mismatches_of_plain (wf.step_plain done trivial)

/-- What the operations of a run log, as far as the run comes. -/
def log (c : Checker) : List (Environment × Operation) → List Event
  | [] => []
  | (env, op) :: rest =>
    match c.step env op with
    | .ok o => o.events ++ o.checker.log rest
    | .error _ => []

end Checker

end Overrun
