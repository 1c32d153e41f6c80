import Overrun.Learned.Invariant

/-! What an access means to what its instruction has learned. An invariant agrees with itself, one that
agrees stays, and nothing but a block that was learned can be contradicted. -/

namespace Overrun.Invariant

theorem agrees_self (inv : Invariant) : inv.agrees inv = true := by
  cases inv <;> simp [agrees]

/-- What invariants are told apart by. -/
def mark : Invariant → Kind × Option Span × Option NodeId
  | unset => (.unset, none, none)
  | unknown => (.unknown, none, none)
  | ownFrame span _ => (.ownFrame, some span, none)
  | callerFrame node .. => (.callerFrame, none, some node)
  | global node .. => (.global, none, some node)

theorem agrees_iff_mark (a b : Invariant) : a.agrees b = true ↔ a.mark = b.mark := by
  cases a <;> cases b <;> simp [agrees, mark]

theorem agrees_equivalence : Equivalence fun a b : Invariant => a.agrees b = true := by
  simp only [agrees_iff_mark]
  exact ⟨fun _ => rfl, fun same => same.symm, fun first second => first.trans second⟩

theorem unset_agrees_iff {fresh : Invariant} : unset.agrees fresh = true ↔ fresh = .unset := by
  cases fresh <;> simp [agrees]

theorem unknown_agrees_iff {fresh : Invariant} :
    unknown.agrees fresh = true ↔ fresh = .unknown := by
  cases fresh <;> simp [agrees]

theorem judge_eq {learned : Invariant} (set : learned ≠ .unset) (fresh : Invariant) :
    learned.judge fresh =
      if learned.agrees fresh then .confirmed
      else if learned = .unknown then .upgraded
      else .mismatched := by
  cases learned with
  | unset => contradiction
  | _ => rfl

theorem revised_eq (learned fresh : Invariant) :
    learned.revised fresh = if learned.agrees fresh then learned else fresh := by
  by_cases unset : learned = .unset
  · subst unset
    cases fresh <;> rfl
  · unfold revised
    rw [judge_eq unset]
    by_cases same : learned.agrees fresh = true
    · rw [if_pos same, if_pos same]
    · rw [if_neg same, if_neg same]
      by_cases unknown : learned = .unknown
      · rw [if_pos unknown]
      · rw [if_neg unknown]

theorem judge_eq_mismatched_iff {learned fresh : Invariant} :
    learned.judge fresh = .mismatched ↔
      learned.span?.isSome = true ∧ learned.agrees fresh = false := by
  cases learned <;> cases fresh <;> simp [judge, isUnset, agrees, span?]

theorem judge_eq_upgraded_iff {learned fresh : Invariant} :
    learned.judge fresh = .upgraded ↔ learned = .unknown ∧ fresh ≠ .unknown := by
  by_cases unset : learned = .unset
  · subst unset
    simp [judge, isUnset]
  · rw [judge_eq unset]
    by_cases unknown : learned = .unknown
    · subst unknown
      by_cases same : fresh = .unknown
      · simp [same, agrees]
      · simp [same, unknown_agrees_iff]
    · by_cases same : learned.agrees fresh = true
      · simp [same, unknown]
      · simp [same, unknown]

theorem agrees_revised (learned fresh : Invariant) :
    (if learned.agrees fresh then learned else fresh).agrees fresh = true := by
  by_cases same : learned.agrees fresh = true
  · rw [if_pos same]
    exact same
  · rw [if_neg same]
    exact fresh.agrees_self

theorem revised_ne_unset {learned fresh : Invariant} (set : fresh ≠ .unset) :
    (if learned.agrees fresh then learned else fresh) ≠ .unset := by
  intro unset
  have same := learned.agrees_revised fresh
  rw [unset] at same
  exact set (unset_agrees_iff.1 same)

end Overrun.Invariant
