import Mathlib.Data.List.Basic
import Mathlib.Data.List.Induction
import Overrun.Block.Pool

/-! A pool keeps every value it has taken in once, in order of first appearance. The handle of a value is
its place in that order, so it stays the same whatever is taken in later, and a table that finds handles
by value never gets out of step with the values. -/

namespace Overrun

variable {α : Type} [DecidableEq α] {l : List α} {a b : α}

theorem eraseDups_concat (l : List α) (a : α) :
    (l ++ [a]).eraseDups = if a ∈ l then l.eraseDups else l.eraseDups ++ [a] := by
  rw [List.eraseDups_append]
  by_cases known : a ∈ l <;> simp [known, List.removeAll, List.eraseDups_cons]

theorem nodup_eraseDups (l : List α) : l.eraseDups.Nodup := by
  induction l using List.reverseRecOn with
  | nil => exact List.nodup_nil
  | append_singleton before a ih =>
    rw [eraseDups_concat]
    split
    · exact ih
    · next new =>
      refine List.nodup_append.2 ⟨ih, List.pairwise_singleton _ a, fun b old c last => ?_⟩
      rw [List.mem_singleton.1 last]
      rintro rfl
      exact new (List.mem_eraseDups.1 old)

namespace Pool

def holding (values : List α) : Pool α :=
  ⟨values.eraseDups⟩

/-- The place of a value among the distinct ones, in order of first appearance. -/
def rank (values : List α) (value : α) : Nat :=
  values.eraseDups.idxOf value

theorem rank_append (member : a ∈ l) (rest : List α) : rank (l ++ rest) a = rank l a := by
  unfold rank
  rw [List.eraseDups_append, List.idxOf_append_of_mem (List.mem_eraseDups.2 member)]

theorem rank_inj (member : a ∈ l) : rank l a = rank l b ↔ a = b :=
  List.idxOf_inj (List.mem_eraseDups.2 member)

theorem get?_holding (member : a ∈ l) : (holding l).get? (rank l a) = some a :=
  List.getElem?_idxOf (List.mem_eraseDups.2 member)

theorem exists_rank_eq_iff {place : Nat} :
    (∃ a ∈ l, rank l a = place) ↔ place < l.eraseDups.length := by
  constructor
  · rintro ⟨a, member, rfl⟩
    exact List.idxOf_lt_length_of_mem (List.mem_eraseDups.2 member)
  · intro inside
    refine ⟨l.eraseDups[place], ?_, (nodup_eraseDups l).idxOf_getElem place inside⟩
    exact List.mem_eraseDups.1 (List.getElem_mem inside)

theorem intern_holding (before : List α) (a : α) :
    (holding before).intern a = (rank (before ++ [a]) a, holding (before ++ [a])) := by
  unfold intern holding
  by_cases known : a ∈ before
  · have member := List.mem_eraseDups.2 known
    have found : before.eraseDups.idxOf? a = some (rank before a) := by
      refine List.idxOf?_eq_some_iff.2 ⟨List.idxOf_lt_length_of_mem member, List.getElem_idxOf _, ?_⟩
      exact fun j early => ne_of_beq_false (List.not_of_lt_findIdx early)
    simp only [found, eraseDups_concat, if_pos known, rank_append known]
  · have missing : before.eraseDups.idxOf? a = none := by
      rw [List.idxOf?_eq_none_iff, List.mem_eraseDups]
      exact known
    have last : rank (before ++ [a]) a = before.eraseDups.length := by
      rw [rank, eraseDups_concat, if_neg known,
        List.idxOf_append_of_notMem fun old => known (List.mem_eraseDups.1 old),
        List.idxOf_cons_self, Nat.add_zero]
    simp only [missing, eraseDups_concat, if_neg known, last]

/-- A pool with a table beside it that gives the handle of a value. -/
structure Indexed (α : Type) where
  handles : α → Option Nat
  pool : Pool α

namespace Indexed

def empty : Indexed α :=
  ⟨fun _ => none, ∅⟩

/-- Looks into the table first and adds to both only if the value is not there. -/
def intern (p : Indexed α) (value : α) : Nat × Indexed α :=
  match p.handles value with
  | some handle => (handle, p)
  | none => (p.pool.size, ⟨fun other => if other = value then some p.pool.size else p.handles other,
      ⟨p.pool.items ++ [value]⟩⟩)

def holding (values : List α) : Indexed α :=
  values.foldl (fun p value => (p.intern value).2) empty

/-- Whether the table and the pool are inverse to each other. -/
def InStep (p : Indexed α) : Prop :=
  ∀ value handle, p.handles value = some handle ↔ p.pool.get? handle = some value

variable {p : Indexed α}

omit [DecidableEq α] in
theorem inStep_empty : (empty : Indexed α).InStep :=
  fun _ _ => by simp [empty, Pool.empty, get?, EmptyCollection.emptyCollection]

theorem InStep.handles_eq (inStep : p.InStep) (value : α) :
    p.handles value = p.pool.items.idxOf? value := by
  cases found : p.handles value with
  | none =>
    refine (List.idxOf?_eq_none_iff.2 fun member => ?_).symm
    obtain ⟨handle, held⟩ := List.mem_iff_getElem?.1 member
    rw [(inStep value handle).2 held] at found
    contradiction
  | some handle =>
    refine (List.idxOf?_eq_some_iff.2 ?_).symm
    obtain ⟨inside, held⟩ := List.getElem?_eq_some_iff.1 ((inStep value handle).1 found)
    refine ⟨inside, held, fun j early same => ?_⟩
    have other : p.handles value = some j :=
      (inStep value j).2 (List.getElem?_eq_some_iff.2 ⟨Nat.lt_trans early inside, same⟩)
    rw [found] at other
    exact absurd (Option.some.inj other) (Nat.ne_of_gt early)

theorem InStep.intern (inStep : p.InStep) (value : α) :
    (p.intern value).2.InStep ∧ (p.intern value).1 = (p.pool.intern value).1 ∧
      (p.intern value).2.pool = (p.pool.intern value).2 := by
  have searched := inStep.handles_eq value
  unfold Indexed.intern Pool.intern
  rw [searched]
  cases known : p.pool.items.idxOf? value with
  | some handle => exact ⟨inStep, rfl, rfl⟩
  | none =>
    refine ⟨fun other handle => ?_, rfl, rfl⟩
    have missing : value ∉ p.pool.items := List.idxOf?_eq_none_iff.1 known
    have old := inStep other handle
    dsimp only [get?, size] at old ⊢
    rw [List.getElem?_append]
    by_cases same : other = value
    · subst same
      grind
    · grind

theorem inStep_holding (values : List α) :
    (holding values).InStep ∧ (holding values).pool = Pool.holding values := by
  induction values using List.reverseRecOn with
  | nil => exact ⟨inStep_empty, rfl⟩
  | append_singleton before value ih =>
    obtain ⟨inStep, same⟩ := ih
    rw [holding, List.foldl_append, List.foldl_cons, List.foldl_nil]
    obtain ⟨next, -, pool⟩ := inStep.intern value
    rw [same, intern_holding] at pool
    exact ⟨next, pool⟩

/-- With a table beside it a pool answers with the same handles as without. -/
theorem intern_holding (before : List α) (a : α) :
    ((holding before).intern a).1 = rank (before ++ [a]) a := by
  obtain ⟨inStep, same⟩ := inStep_holding before
  obtain ⟨-, handle, -⟩ := inStep.intern a
  rw [handle, same, Pool.intern_holding]

end Indexed

end Pool

end Overrun
