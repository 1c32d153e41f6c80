import Overrun.Proofs.Address.Run

/-! Clearing a map of a range. The map is searched for the range again and again, and what a search ends at is
taken out, until one ends with nothing. Whichever entries the searches compare the range with, each that
overlaps it is taken out once and no other. -/

namespace Overrun

namespace IntervalMap

variable {α : Type}

/-- Whether one turn takes `e` out of a map: a search for the range ends at it. -/
structure Turn (range : Interval) (m : IntervalMap α) (e : Entry α) (next : IntervalMap α) : Prop where
  found : Search range m.entries (some e)
  taken : ∃ before after, m.entries = before ++ e :: after ∧ next.entries = before ++ after
  counted : next.nextId = m.nextId

/-- Whether a map may be cleared of a range turn by turn, `removed` being what is taken out, in order, and
`last` what is left when a search ends with nothing. -/
inductive Clears (range : Interval) : IntervalMap α → List (Entry α) → IntervalMap α → Prop where
  | done {m : IntervalMap α} (ended : Search range m.entries none) : Clears range m [] m
  | turn {m next last : IntervalMap α} {e : Entry α} {removed : List (Entry α)}
      (taken : Turn range m e next) (rest : Clears range next removed last) :
      Clears range m (e :: removed) last

section Clears

variable {range : Interval} {m next last : IntervalMap α} {e : Entry α} {removed : List (Entry α)}

theorem Turn.wellFormed (turn : Turn range m e next) (wf : m.WellFormed) : next.WellFormed := by
  obtain ⟨before, after, stands, left⟩ := turn.taken
  have fewer : next.entries.Sublist m.entries := by
    rw [stands, left]
    exact (List.sublist_cons_self e after).append_left before
  obtain ⟨entries, nextId⟩ := next
  cases turn.counted
  exact wf.sublist fewer

theorem Turn.overlapping (turn : Turn range m e next) :
    (m.takeRange range).1.Perm (e :: (next.takeRange range).1) := by
  obtain ⟨before, after, stands, left⟩ := turn.taken
  have hit := turn.found.overlaps.2
  simp only [takeRange, stands, left, List.filter_append, List.filter_cons, hit, decide_true,
    if_true]
  exact List.perm_middle

theorem Turn.apart (turn : Turn range m e next) :
    (next.takeRange range).2 = (m.takeRange range).2 := by
  obtain ⟨before, after, stands, left⟩ := turn.taken
  have hit := turn.found.overlaps.2
  unfold takeRange
  simp [stands, left, turn.counted, hit]

/-- There are no endless turns, for with each there is less that overlaps the range. -/
theorem acc_turn (range : Interval) (m : IntervalMap α) :
    Acc (fun next before => ∃ e, Turn range before e next) m := by
  induction left : (m.takeRange range).1.length generalizing m with
  | zero =>
    refine ⟨m, fun next ⟨e, turn⟩ => ?_⟩
    have fewer := turn.overlapping.length_eq
    rw [left] at fewer
    contradiction
  | succ count ih =>
    refine ⟨m, fun next ⟨e, turn⟩ => ih next ?_⟩
    have fewer := turn.overlapping.length_eq
    rw [left, List.length_cons] at fewer
    exact (Nat.succ.inj fewer).symm

theorem takeRange_of_apart (apart : ∀ e ∈ m.entries, ¬e.interval.Overlaps range) :
    m.takeRange range = ([], m) := by
  unfold takeRange
  have none : m.entries.filter (fun e => e.interval.Overlaps range) = [] := by
    simpa using apart
  have all : m.entries.filter (fun e => ¬e.interval.Overlaps range) = m.entries := by
    simpa using apart
  rw [none, all]

/-- In whatever order the entries are found, those that overlap the range are taken out and the others
are left. -/
theorem Clears.takeRange (clears : Clears range m removed last) (wf : m.WellFormed) :
    removed.Perm (m.takeRange range).1 ∧ last = (m.takeRange range).2 := by
  induction clears with
  | done ended =>
    rw [takeRange_of_apart (ended.none_overlaps wf.ordered)]
    exact ⟨.refl _, rfl⟩
  | @turn m next last e removed turn rest ih =>
    obtain ⟨perm, left⟩ := ih (turn.wellFormed wf)
    exact ⟨(perm.cons e).trans turn.overlapping.symm, left.trans turn.apart⟩

theorem clears_takeRange (range : Interval) (m : IntervalMap α) :
    Clears range m (m.takeRange range).1 (m.takeRange range).2 := by
  generalize lowest : (m.takeRange range).1 = removed
  induction removed generalizing m with
  | nil =>
    have apart : ∀ e ∈ m.entries, ¬e.interval.Overlaps range := by
      simpa [IntervalMap.takeRange] using lowest
    obtain ⟨found, search⟩ := exists_search range m.entries
    cases found with
    | none =>
      rw [takeRange_of_apart apart]
      exact .done search
    | some e => exact absurd search.overlaps.2 (apart e search.overlaps.1)
  | cons e rest ih =>
    obtain ⟨before, after, stands, apart, hit, later⟩ := List.filter_eq_cons_iff.1 lowest
    have overlaps := of_decide_eq_true hit
    -- A search may probe the lowest of them first, and then it ends with that.
    have search : Search range m.entries (some e) := by
      rw [stands]
      exact .here before after (Interval.order_eq_eq_iff.2 (Interval.overlaps_comm.1 overlaps))
    have turn : Turn range m e ⟨before ++ after, m.nextId⟩ :=
      ⟨search, ⟨before, after, stands, rfl⟩, rfl⟩
    have lower : before.filter (fun e => e.interval.Overlaps range) = [] :=
      List.filter_eq_nil_iff.2 apart
    have remaining := ih ⟨before ++ after, m.nextId⟩ (by
      unfold IntervalMap.takeRange
      rw [List.filter_append, lower, later]
      rfl)
    rw [turn.apart] at remaining
    exact .turn turn remaining

end Clears

structure Parts (range : Interval) (m : IntervalMap α) (removed : List (Entry α))
    (last : IntervalMap α) : Prop where
  once : removed.Nodup
  removed_iff : ∀ e, e ∈ removed ↔ e ∈ m.entries ∧ e.interval.Overlaps range
  left : last = { m with entries := m.entries.filter fun e => ¬e.interval.Overlaps range }
  clear : ∀ e ∈ last.entries, ¬e.interval.Overlaps range
  whole : (removed ++ last.entries).Perm m.entries
  again : ∀ more final, Clears range last more final → more = [] ∧ final = last

theorem WellFormed.parts {m : IntervalMap α} (wf : m.WellFormed) {range : Interval}
    {removed : List (Entry α)} {last : IntervalMap α} (clears : Clears range m removed last) :
    Parts range m removed last := by
  obtain ⟨perm, rfl⟩ := clears.takeRange wf
  have clear : ∀ e ∈ (m.takeRange range).2.entries, ¬e.interval.Overlaps range := by
    intro e member
    exact of_decide_eq_true (List.mem_filter.1 member).2
  constructor
  case once => exact perm.nodup_iff.2 (wf.nodup.filter _)
  case removed_iff =>
    intro e
    rw [perm.mem_iff, IntervalMap.takeRange, List.mem_filter, decide_eq_true_eq]
  case left => rfl
  case clear => exact clear
  case whole =>
    refine (perm.append_right _).trans ?_
    simp only [IntervalMap.takeRange, decide_not]
    exact List.filter_append_perm _ _
  case again =>
    intro more final again
    obtain ⟨nothing, same⟩ := again.takeRange (wf.takeRange range)
    rw [takeRange_of_apart clear] at nothing same
    exact ⟨List.perm_nil.1 nothing, same⟩

/-- However a map was built, clearing it of a range comes to an end, and in whatever order the entries are
found it comes apart into those that overlap the range and the others. -/
theorem run_clears (ops : List (Operation α)) (range : Interval) :
    let m := (run (∅ : IntervalMap α) ops).1
    Acc (fun next before => ∃ e, Turn range before e next) m ∧
      Clears range m (m.takeRange range).1 (m.takeRange range).2 ∧
      ∀ removed last, Clears range m removed last → Parts range m removed last := by
  obtain ⟨wf, -, -⟩ := (wellFormed_empty (α := α)).run ops
  exact ⟨acc_turn range _, clears_takeRange range _, fun _ _ => wf.parts⟩

def sampleRange : Interval :=
  ⟨0x1008, 0x1807, by decide, by decide⟩

def sampleBuild : List (Operation Nat) := [
  .insert ⟨0x1000, 0x100f, by decide, by decide⟩ 1,
  .insert ⟨0x1010, 0x101f, by decide, by decide⟩ 2,
  .insert ⟨0x1800, 0x180f, by decide, by decide⟩ 3,
  .insert ⟨0x3000, 0x300f, by decide, by decide⟩ 4]

/-- The searches may find the second interval first and the first one last. -/
theorem run_clears_sample :
    ∃ removed last, Clears sampleRange (run ∅ sampleBuild).1 removed last ∧
      removed.map (·.value) = [2, 3, 1] ∧
      Parts sampleRange (run ∅ sampleBuild).1 removed last := by
  let a : Entry Nat := ⟨⟨0x1000, 0x100f, by decide, by decide⟩, ⟨0⟩, 1⟩
  let b : Entry Nat := ⟨⟨0x1010, 0x101f, by decide, by decide⟩, ⟨1⟩, 2⟩
  let c : Entry Nat := ⟨⟨0x1800, 0x180f, by decide, by decide⟩, ⟨2⟩, 3⟩
  let d : Entry Nat := ⟨⟨0x3000, 0x300f, by decide, by decide⟩, ⟨3⟩, 4⟩
  have built : (run ∅ sampleBuild).1 = ⟨[a, b, c, d], ⟨4⟩⟩ := by decide +kernel
  have first : Turn sampleRange ⟨[a, b, c, d], ⟨4⟩⟩ b ⟨[a, c, d], ⟨4⟩⟩ :=
    ⟨.here [a] [c, d] rfl, ⟨[a], [c, d], rfl, rfl⟩, rfl⟩
  have second : Turn sampleRange ⟨[a, c, d], ⟨4⟩⟩ c ⟨[a, d], ⟨4⟩⟩ :=
    ⟨.before [] rfl (.here [a] [] rfl), ⟨[a], [d], rfl, rfl⟩, rfl⟩
  have third : Turn sampleRange ⟨[a, d], ⟨4⟩⟩ a ⟨[d], ⟨4⟩⟩ :=
    ⟨.here [] [d] rfl, ⟨[], [d], rfl, rfl⟩, rfl⟩
  have clears : Clears sampleRange (run ∅ sampleBuild).1 [b, c, a] ⟨[d], ⟨4⟩⟩ := by
    rw [built]
    exact .turn first (.turn second (.turn third (.done (.before [] rfl .nothing))))
  obtain ⟨-, -, parts⟩ := run_clears sampleBuild sampleRange
  exact ⟨_, _, clears, rfl, parts _ _ clears⟩

end IntervalMap

end Overrun
