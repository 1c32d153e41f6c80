import Overrun.Proofs.Address.Disjoint
import Overrun.Thread.Basic

/-! An invariant is live while the entry it was learned from is still registered. Of two that are live
at once each names its entry by number, so they agree just when they are about the same bytes. -/

namespace Overrun.Invariant

/-- Whether an invariant of an activation at `depth` names an entry that is there, unchanged, and that
was registered further down the stack. -/
def Live (registered : IntervalMap Registration) (globals : IntervalMap GlobalRef) (depth : Nat) :
    Invariant → Prop
  | unset | unknown | ownFrame _ _ => True
  | callerFrame node span block owner =>
    owner < depth ∧ ∃ iv, ⟨iv, node, ⟨block, owner⟩⟩ ∈ registered.entries ∧ iv.span = span
  | global node span block => ∃ iv, ⟨iv, node, block⟩ ∈ globals.entries ∧ iv.span = span

variable {registered after : IntervalMap Registration}
  {globals globalsAfter : IntervalMap GlobalRef} {depth : Nat} {learned fresh inv : Invariant}

/-- Entries may come, and those at or above the activation may go. -/
theorem Live.keep (live : inv.Live registered globals depth)
    (kept : ∀ e ∈ registered.entries, e.value.depth < depth → e ∈ after.entries)
    (globalsKept : ∀ e ∈ globals.entries, e ∈ globalsAfter.entries) :
    inv.Live after globalsAfter depth := by
  cases inv with
  | unset | unknown | ownFrame _ _ => trivial
  | callerFrame node span block owner =>
    obtain ⟨below, iv, member, same⟩ := live
    exact ⟨below, iv, kept _ member below, same⟩
  | global node span block =>
    obtain ⟨iv, member, same⟩ := live
    exact ⟨iv, globalsKept _ member, same⟩

private theorem nodes_eq_iff {α : Type} {m : IntervalMap α} (wf : m.WellFormed) {a b : Entry α}
    (first : a ∈ m.entries) (second : b ∈ m.entries) :
    a.id = b.id ↔ a.interval.span = b.interval.span := by
  constructor
  · intro same
    rw [wf.eq_of_id first second same]
  · intro same
    rw [wf.eq_of_span first second same]

/-- Comparing entries by number and comparing bytes come to the same. -/
theorem agrees_iff (registeredWf : registered.WellFormed) (globalsWf : globals.WellFormed)
    (learnedLive : learned.Live registered globals depth)
    (freshLive : fresh.Live registered globals depth) :
    learned.agrees fresh = true ↔ learned.kind = fresh.kind ∧ learned.span? = fresh.span? := by
  cases learned with
  | unset => cases fresh <;> simp [agrees, kind, span?]
  | unknown => cases fresh <;> simp [agrees, kind, span?]
  | ownFrame span block => cases fresh <;> simp [agrees, kind, span?]
  | callerFrame node span block owner =>
    cases fresh with
    | callerFrame freshNode freshSpan freshBlock freshOwner =>
      obtain ⟨-, iv, member, rfl⟩ := learnedLive
      obtain ⟨-, freshIv, freshMember, rfl⟩ := freshLive
      simpa [agrees, kind, span?] using nodes_eq_iff registeredWf member freshMember
    | _ => simp [agrees, kind]
  | global node span block =>
    cases fresh with
    | global freshNode freshSpan freshBlock =>
      obtain ⟨iv, member, rfl⟩ := learnedLive
      obtain ⟨freshIv, freshMember, rfl⟩ := freshLive
      simpa [agrees, kind, span?] using nodes_eq_iff globalsWf member freshMember
    | _ => simp [agrees, kind]

theorem judge_mismatched {span : Span} (confined : learned.span? = some span)
    (differs : learned.agrees fresh = false) : learned.judge fresh = .mismatched := by
  cases learned with
  | unset => contradiction
  | unknown => contradiction
  | _ => simp [judge, isUnset, differs]

theorem judge_confirmed {span : Span} (confined : learned.span? = some span)
    (same : learned.agrees fresh = true) : learned.judge fresh = .confirmed := by
  cases learned with
  | unset => contradiction
  | unknown => contradiction
  | _ => simp [judge, isUnset, same]

theorem revised_eq_or (learned fresh : Invariant) :
    learned.revised fresh = learned ∨ learned.revised fresh = fresh := by
  unfold revised
  split
  · exact .inl rfl
  all_goals exact .inr rfl

end Overrun.Invariant
