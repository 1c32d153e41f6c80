import Overrun.Proofs.Address.Run

/-! The numbers of entries. They are given out one after another, each once. A number is known from then on
until its entry is taken out, and never again after that, whatever is taken in where the entry was. -/

namespace Overrun.IntervalMap

variable {α : Type}

section Later

variable {m next last : IntervalMap α} {node : NodeId}

/-- Whether a map may have become another. Entries that have come since have new numbers. -/
structure Precedes (m next : IntervalMap α) : Prop where
  counted : m.nextId.index ≤ next.nextId.index
  old : ∀ e ∈ next.entries, e.id.index < m.nextId.index → e ∈ m.entries

theorem Precedes.refl (m : IntervalMap α) : m.Precedes m :=
  ⟨Nat.le_refl _, fun _ member _ => member⟩

theorem Precedes.trans (first : m.Precedes next) (second : next.Precedes last) :
    m.Precedes last := by
  refine ⟨Nat.le_trans first.counted second.counted, fun e member early => ?_⟩
  exact first.old e (second.old e member (Nat.lt_of_lt_of_le early first.counted)) early

theorem precedes_insert {iv : Interval} {value : α} {id : NodeId}
    (inserted : m.insert iv value = .ok (id, next)) : m.Precedes next := by
  obtain ⟨-, -, rfl⟩ := insert_eq_ok inserted
  refine ⟨Nat.le_succ _, fun e member early => ?_⟩
  rcases mem_place.1 member with rfl | old
  · exact absurd early (Nat.lt_irrefl _)
  · exact old

theorem precedes_takeRange (m : IntervalMap α) (range : Interval) :
    m.Precedes (m.takeRange range).2 :=
  ⟨Nat.le_refl _, fun _ member _ => (List.mem_filter.1 member).1⟩

/-- Whether a number has been given out and nothing stands at it any more. -/
def Spent (node : NodeId) (m : IntervalMap α) : Prop :=
  node.index < m.nextId.index ∧ ∀ e ∈ m.entries, e.id ≠ node

theorem Spent.later (spent : m.Spent node) (before : m.Precedes next) : next.Spent node := by
  refine ⟨Nat.lt_of_lt_of_le spent.1 before.counted, fun e member same => ?_⟩
  exact spent.2 e (before.old e member (same ▸ spent.1)) same

end Later

def Operation.inserts : Operation α → Bool
  | .insert .. => true
  | .takeAt _ | .takeRange _ | .find _ => false

def put? (m : IntervalMap α) : Operation α → Option (Entry α)
  | .insert iv value => (m.insert iv value).toOption.map fun (id, _) => ⟨iv, id, value⟩
  | .takeAt _ | .takeRange _ | .find _ => none

def taken (m : IntervalMap α) : Operation α → List (Entry α)
  | .takeAt address => ((m.takeAt? address).map Prod.fst).toList
  | .takeRange range => (m.takeRange range).1
  | .insert .. | .find _ => []

section Steps

variable {m : IntervalMap α} {e : Entry α} {id : NodeId} {op : Operation α}

theorem issued?_eq (m : IntervalMap α) (op : Operation α) :
    m.issued? op = (m.put? op).map (·.id) := by
  cases op with
  | insert iv value => simp [issued?, put?, Function.comp_def]
  | takeAt | takeRange | find => rfl

theorem WellFormed.mem_apply (wf : m.WellFormed) (op : Operation α) :
    e ∈ (m.apply op).entries ↔ (e ∈ m.entries ∧ e ∉ m.taken op) ∨ m.put? op = some e := by
  cases op with
  | insert iv value =>
    cases inserted : m.insert iv value with
    | error overlap => simp [IntervalMap.apply, taken, put?, inserted, Except.toOption]
    | ok result =>
      obtain ⟨id, after⟩ := result
      obtain ⟨-, rfl, rfl⟩ := insert_eq_ok inserted
      simp [IntervalMap.apply, taken, put?, inserted, Except.toOption, mem_place, or_comm, eq_comm]
  | takeAt address =>
    cases found : m.takeAt? address with
    | none => simp [IntervalMap.apply, taken, put?, found]
    | some result =>
      obtain ⟨gone, after⟩ := result
      obtain ⟨perm, -, -⟩ := wf.takeAt?_ok found
      have absent := (List.nodup_cons.1 (perm.nodup_iff.1 wf.nodup)).1
      simp only [IntervalMap.apply, taken, put?, found, perm.mem_iff, Option.map_some,
        Option.getD_some, Option.mem_toList, List.mem_cons]
      grind
  | takeRange range =>
    simp [IntervalMap.apply, taken, put?, IntervalMap.takeRange]
    grind
  | find address => simp [IntervalMap.apply, taken, put?]

theorem mem_of_taken (gone : e ∈ m.taken op) : e ∈ m.entries := by
  cases op with
  | insert iv value => contradiction
  | takeAt address =>
    rw [taken, takeAt?_fst, Option.mem_toList] at gone
    exact (covering?_mem gone).1
  | takeRange range => exact (List.mem_filter.1 gone).1
  | find address => contradiction

theorem WellFormed.hasNode_apply (wf : m.WellFormed) (op : Operation α) :
    (m.apply op).hasNode id = true ↔
      (m.hasNode id = true ∧ ∀ e ∈ m.taken op, e.id ≠ id) ∨ m.issued? op = some id := by
  simp only [hasNode_iff, wf.mem_apply, issued?_eq, Option.map_eq_some_iff]
  constructor
  · rintro ⟨e, ⟨member, stays⟩ | fresh, rfl⟩
    · refine .inl ⟨⟨e, member, rfl⟩, fun other gone same => stays ?_⟩
      exact wf.eq_of_id (mem_of_taken gone) member same ▸ gone
    · exact .inr ⟨e, fresh, rfl⟩
  · rintro (⟨⟨e, member, rfl⟩, stays⟩ | ⟨e, fresh, rfl⟩)
    · exact ⟨e, .inl ⟨member, fun gone => stays e gone rfl⟩, rfl⟩
    · exact ⟨e, .inr fresh, rfl⟩

theorem nextId_apply (m : IntervalMap α) (op : Operation α) :
    (m.issued? op = some m.nextId ∧ op.inserts = true ∧
      (m.apply op).nextId.index = m.nextId.index + 1) ∨
    (m.issued? op = none ∧ (m.apply op).nextId.index = m.nextId.index) := by
  cases op with
  | insert iv value =>
    cases inserted : m.insert iv value with
    | error overlap => simp [IntervalMap.apply, issued?, inserted, Except.toOption]
    | ok result =>
      obtain ⟨id, after⟩ := result
      obtain ⟨-, rfl, rfl⟩ := insert_eq_ok inserted
      simp [IntervalMap.apply, issued?, inserted, Except.toOption, Operation.inserts]
  | takeAt address =>
    cases found : m.takeAt? address with
    | none => simp [IntervalMap.apply, issued?, found]
    | some result =>
      obtain ⟨e, -, rfl⟩ := Option.map_eq_some_iff.1 found
      simp [IntervalMap.apply, issued?, found]
  | takeRange range => simp [IntervalMap.apply, issued?, takeRange]
  | find address => simp [IntervalMap.apply, issued?]

theorem run_append (m : IntervalMap α) (first second : List (Operation α)) :
    (m.run (first ++ second)).1 = ((m.run first).1.run second).1 := by
  induction first generalizing m with
  | nil => rfl
  | cons op rest ih => exact ih (m.apply op)

theorem run_issued (m : IntervalMap α) (ops : List (Operation α)) :
    (m.run ops).2.map (·.index) = List.range' m.nextId.index (m.run ops).2.length ∧
      (m.run ops).1.nextId.index = m.nextId.index + (m.run ops).2.length ∧
      (m.run ops).2.length ≤ ops.countP (·.inserts) := by
  induction ops generalizing m with
  | nil => exact ⟨rfl, rfl, Nat.le_refl _⟩
  | cons op rest ih =>
    obtain ⟨numbers, counted, few⟩ := ih (m.apply op)
    rcases m.nextId_apply op with ⟨issued, inserts, next⟩ | ⟨issued, next⟩
    · simp only [run, issued, Option.toList_some, List.cons_append, List.nil_append,
        List.map_cons, List.length_cons, List.range'_succ, List.countP_cons_of_pos inserts]
      rw [numbers, counted, next]
      exact ⟨rfl, by omega, Nat.succ_le_succ few⟩
    · simp only [run, issued, Option.toList_none, List.nil_append]
      rw [numbers, counted, next]
      refine ⟨rfl, rfl, Nat.le_trans few ?_⟩
      rw [List.countP_cons]
      exact Nat.le_add_right _ _

end Steps

/-- The map that operations have come to before the one at `k`. -/
def moment (ops : List (Operation α)) (k : Nat) : IntervalMap α :=
  (run ∅ (ops.take k)).1

def Issues (ops : List (Operation α)) (i : Nat) (id : NodeId) : Prop :=
  ∃ op, ops[i]? = some op ∧ (moment ops i).issued? op = some id

def Releases (ops : List (Operation α)) (j : Nat) (id : NodeId) : Prop :=
  ∃ op, ops[j]? = some op ∧ ∃ e ∈ (moment ops j).taken op, e.id = id

section Moments

variable {ops : List (Operation α)} {op : Operation α} {i j k : Nat} {id : NodeId}

theorem wellFormed_moment (ops : List (Operation α)) (k : Nat) : (moment ops k).WellFormed :=
  (wellFormed_empty.run _).1

theorem moment_succ (there : ops[k]? = some op) : moment ops (k + 1) = (moment ops k).apply op := by
  unfold moment
  rw [List.take_add_one, there, run_append]
  rfl

theorem moment_beyond (ended : ops[k]? = none) : moment ops (k + 1) = moment ops k := by
  unfold moment
  rw [List.take_add_one, ended, Option.toList_none, List.append_nil]

theorem nextId_moment_le (ops : List (Operation α)) (le : i ≤ j) :
    (moment ops i).nextId.index ≤ (moment ops j).nextId.index := by
  induction le with
  | refl => exact Nat.le_refl _
  | @step k le ih =>
    refine Nat.le_trans ih ?_
    cases there : ops[k]? with
    | none => exact Nat.le_of_eq (congrArg (·.nextId.index) (moment_beyond there)).symm
    | some op =>
      rw [moment_succ there]
      exact ((wellFormed_moment ops k).apply op).2.1

theorem Issues.eq (issues : Issues ops i id) :
    id = (moment ops i).nextId ∧
      (moment ops (i + 1)).nextId.index = (moment ops i).nextId.index + 1 := by
  obtain ⟨op, there, issued⟩ := issues
  rw [moment_succ there]
  rcases (moment ops i).nextId_apply op with ⟨same, -, next⟩ | ⟨none, -⟩
  · exact ⟨Option.some.inj (issued.symm.trans same), next⟩
  · cases issued.symm.trans none

theorem Issues.once (first : Issues ops i id) (second : Issues ops j id) : i = j := by
  have apart : ∀ {i j : Nat}, Issues ops i id → Issues ops j id → ¬i < j := by
    intro i j earlier later before
    have counted := nextId_moment_le ops before
    have same := congrArg NodeId.index (earlier.eq.1.symm.trans later.eq.1)
    rw [earlier.eq.2] at counted
    omega
  exact Nat.le_antisymm (Nat.not_lt.1 (apart second first)) (Nat.not_lt.1 (apart first second))

/-- What has come about by `k + 1` and has not ended has come about by `k` and has not ended, or comes about
at `k`. -/
private theorem exists_lasting_succ {begins ends : Nat → Prop} {k : Nat} :
    (∃ i < k + 1, begins i ∧ ∀ j, i < j → j < k + 1 → ¬ends j) ↔
      (∃ i < k, begins i ∧ ∀ j, i < j → j < k → ¬ends j) ∧ ¬ends k ∨ begins k := by
  constructor
  · rintro ⟨i, before, start, lasts⟩
    rcases Nat.lt_succ_iff_lt_or_eq.1 before with early | rfl
    · exact .inl ⟨⟨i, early, start, fun j after soon => lasts j after (Nat.lt_succ_of_lt soon)⟩,
        lasts k early (Nat.lt_succ_self k)⟩
    · exact .inr start
  · rintro (⟨⟨i, early, start, lasts⟩, still⟩ | start)
    · refine ⟨i, Nat.lt_succ_of_lt early, start, fun j after soon => ?_⟩
      rcases Nat.lt_succ_iff_lt_or_eq.1 soon with sooner | rfl
      · exact lasts j after sooner
      · exact still
    · exact ⟨k, Nat.lt_succ_self k, start, fun j after soon => by omega⟩

/-- A number is known from when it is given out until its entry is taken out. -/
theorem hasNode_moment (ops : List (Operation α)) (k : Nat) (id : NodeId) :
    (moment ops k).hasNode id = true ↔
      ∃ i < k, Issues ops i id ∧ ∀ j, i < j → j < k → ¬Releases ops j id := by
  induction k with
  | zero => simp [moment, hasNode, run, EmptyCollection.emptyCollection, empty]
  | succ k ih =>
    rw [exists_lasting_succ, ← ih]
    cases there : ops[k]? with
    | none => simp [moment_beyond there, Issues, Releases, there]
    | some op =>
      rw [moment_succ there, (wellFormed_moment ops k).hasNode_apply]
      simp [Issues, Releases, there]

theorem Releases.forgotten (releases : Releases ops j id) (later : j < k) :
    (moment ops k).hasNode id = false := by
  refine Bool.eq_false_iff.2 fun known => ?_
  obtain ⟨i, before, issues, lasts⟩ := (hasNode_moment ops k id).1 known
  obtain ⟨op, there, e, gone, named⟩ := releases
  have stood : (moment ops j).hasNode id = true :=
    hasNode_iff.2 ⟨e, mem_of_taken gone, named⟩
  obtain ⟨first, early, issued, -⟩ := (hasNode_moment ops j id).1 stood
  have same := issues.once issued
  exact lasts j (same ▸ early) later ⟨op, there, e, gone, named⟩

end Moments

/-- How the numbers of a map stand in a run of operations from an empty one. -/
structure Numbered (ops : List (Operation α)) : Prop where
  issued : (run (∅ : IntervalMap α) ops).2.map (·.index) =
    List.range (run (∅ : IntervalMap α) ops).2.length
  counted : (run (∅ : IntervalMap α) ops).1.nextId.index = (run (∅ : IntervalMap α) ops).2.length
  few : (run (∅ : IntervalMap α) ops).2.length ≤ ops.countP (·.inserts)
  once : ∀ i j id, Issues ops i id → Issues ops j id → i = j
  below : ∀ k, ∀ e ∈ (moment ops k).entries, e.id.index < (moment ops k).nextId.index
  known_iff : ∀ k id, (moment ops k).hasNode id = true ↔
    ∃ i < k, Issues ops i id ∧ ∀ j, i < j → j < k → ¬Releases ops j id
  forgotten : ∀ j id, Releases ops j id → ∀ k, j < k → (moment ops k).hasNode id = false

theorem run_numbered (ops : List (Operation α)) : Numbered ops := by
  obtain ⟨issued, counted, few⟩ := run_issued ∅ ops
  constructor
  case issued => rw [issued, List.range_eq_range']; rfl
  case counted => exact counted.trans (Nat.zero_add _)
  case few => exact few
  case once => exact fun i j id => Issues.once
  case below => exact fun k => (wellFormed_moment ops k).fresh
  case known_iff => exact hasNode_moment ops
  case forgotten => exact fun j id releases k => releases.forgotten

end Overrun.IntervalMap
