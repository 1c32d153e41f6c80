import Overrun.Proofs.Block.Growing
import Overrun.Proofs.Checker.Effects

/-! The vector of an instruction, once it is known, is known for good: the debug information is not asked
again, whatever it would say by then. Its handle is one that the catalog has given out. -/

namespace Overrun

theorem Pool.size_le_intern {α : Type} [DecidableEq α] (p : Pool α) (value : α) :
    p.size ≤ (p.intern value).2.size :=
  (p.prefix_intern value).length_le

theorem Pool.intern_lt_size {α : Type} [DecidableEq α] (p : Pool α) (value : α) :
    (p.intern value).1 < (p.intern value).2.size := by
  obtain ⟨inside, -⟩ := List.getElem?_eq_some_iff.1 (p.get?_intern value)
  exact inside

namespace Checker

def Informed (c : Checker) : Prop :=
  ∀ instruction v, c.vectors.lookup instruction = some v → v.index < c.catalog.vectors.size

/-- Whether the vectors that are known in `c` still are, and the catalog has them all. -/
structure Retained (c after : Checker) : Prop where
  known : ∀ instruction v, c.vectors.lookup instruction = some v →
    after.vectors.lookup instruction = some v
  grown : c.catalog.vectors.size ≤ after.catalog.vectors.size

variable {c after last : Checker} {env : Environment}

theorem Retained.refl (c : Checker) : Retained c c :=
  ⟨fun _ _ known => known, Nat.le_refl _⟩

theorem Retained.trans (first : Retained c after) (second : Retained after last) :
    Retained c last :=
  ⟨fun instruction v known => second.known instruction v (first.known instruction v known),
    Nat.le_trans first.grown second.grown⟩

theorem vectorAt_lookup (env : Environment) (c : Checker) (instruction other : UInt64) :
    (c.vectorAt env instruction).checker.vectors.lookup other =
      if other = instruction then some (c.vectorAt env instruction).value
      else c.vectors.lookup other := by
  by_cases same : other = instruction
  · subst same
    rw [if_pos rfl]
    unfold vectorAt
    split
    · next v known => exact known
    · exact List.lookup_cons_self
  · rw [if_neg same]
    unfold vectorAt
    split
    · rfl
    · have apart : (other == instruction) = false := beq_false_of_ne same
      show List.lookup other ((instruction, _) :: c.vectors) = _
      rw [List.lookup_cons, apart]

theorem vectorAt_value {instruction : UInt64} {v : VectorRef}
    (known : c.vectors.lookup instruction = some v) :
    (c.vectorAt env instruction).value = v := by
  unfold vectorAt
  rw [known]

theorem vectorAt_retained (env : Environment) (c : Checker) (instruction : UInt64) :
    Retained c (c.vectorAt env instruction).checker := by
  constructor
  · intro other v known
    rw [vectorAt_lookup]
    split
    · next same =>
      subst same
      rw [vectorAt_value known]
    · exact known
  · unfold vectorAt
    split
    · exact Nat.le_refl _
    · exact c.catalog.vectors.size_le_intern _

theorem Informed.vectorAt (informed : c.Informed) (env : Environment) (instruction : UInt64) :
    (c.vectorAt env instruction).checker.Informed := by
  have fresh : (c.vectorAt env instruction).value.index <
      (c.vectorAt env instruction).checker.catalog.vectors.size := by
    unfold Checker.vectorAt
    split
    · next v known => exact informed _ v known
    · exact c.catalog.vectors.intern_lt_size _
  intro other v known
  rw [vectorAt_lookup] at known
  split at known
  · cases known
    exact fresh
  · exact Nat.lt_of_lt_of_le (informed other v known) (vectorAt_retained env c instruction).grown

theorem LookedUp.retained (found : LookedUp env c after) : Retained c after := by
  induction found with
  | nothing => exact .refl c
  | vector before instruction ih => exact ih.trans (vectorAt_retained env _ instruction)

theorem LookedUp.informed (found : LookedUp env c after) (informed : c.Informed) :
    after.Informed := by
  induction found with
  | nothing => exact informed
  | vector before instruction ih => exact ih.vectorAt env instruction

theorem registerGlobals_vectors (c : Checker) (blocks : List GlobalBlock) :
    (c.registerGlobals blocks).checker.vectors = c.vectors ∧
      (c.registerGlobals blocks).checker.catalog.vectors = c.catalog.vectors := by
  apply registerGlobals_induct (P := fun d =>
    d.vectors = c.vectors ∧ d.catalog.vectors = c.catalog.vectors)
  · exact fun _ _ same => same
  · exact fun _ _ _ _ _ _ same => same
  · exact fun _ same => same
  · exact ⟨rfl, rfl⟩

theorem retained_of_eq (vectors : after.vectors = c.vectors)
    (catalog : after.catalog.vectors = c.catalog.vectors) :
    Retained c after ∧ (c.Informed → after.Informed) := by
  constructor
  · exact ⟨fun _ _ known => vectors ▸ known, Nat.le_of_eq (congrArg Pool.size catalog.symm)⟩
  · unfold Informed
    rw [vectors, catalog]
    exact id

theorem Changed.retained (changed : Changed env c after) :
    Retained c after ∧ (c.Informed → after.Informed) := by
  cases changed with
  | thread tid slot statistics report => exact retained_of_eq rfl rfl
  | load blocks =>
    obtain ⟨vectors, catalog⟩ := registerGlobals_vectors c blocks
    exact retained_of_eq vectors catalog
  | unmap range => exact retained_of_eq rfl rfl
  | intern blocks =>
    have grown := c.catalog.vectors.size_le_intern (StackBlock.canonical blocks)
    exact ⟨⟨fun _ _ known => known, grown⟩,
      fun informed instruction v known => Nat.lt_of_lt_of_le (informed instruction v known) grown⟩
  | consult found => exact ⟨found.retained, found.informed⟩
  | report report => exact retained_of_eq rfl rfl

end Checker

end Overrun
