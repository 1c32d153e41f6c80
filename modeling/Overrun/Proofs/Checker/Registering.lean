import Mathlib.Data.List.Forall2
import Overrun.Proofs.Address.Bytes
import Overrun.Proofs.Address.Run
import Overrun.Proofs.Block.Growing
import Overrun.Proofs.Checker.WellFormed

/-! Global blocks are taken in as they come. A block that holds something and fits is registered unless an
address of it is taken by then, and whatever was taken in before goes on as it is. -/

namespace Overrun

def IntervalMap.spans {α : Type} (m : IntervalMap α) : List Span :=
  m.entries.map (·.interval.span)

namespace GlobalBlock

def span (b : GlobalBlock) : Span :=
  ⟨b.address, b.size⟩

def Sound (b : GlobalBlock) : Prop :=
  0 < b.size ∧ b.span.Fits

instance (b : GlobalBlock) : Decidable b.Sound :=
  inferInstanceAs (Decidable (_ ∧ _))

def Admissible (taken : List Span) (b : GlobalBlock) : Prop :=
  b.Sound ∧ ∀ s ∈ taken, ¬s.Meets b.span

instance (taken : List Span) (b : GlobalBlock) : Decidable (b.Admissible taken) :=
  inferInstanceAs (Decidable (_ ∧ _))

/-- The blocks of a list that are taken in one after another. -/
def admitted (taken : List Span) : List GlobalBlock → List GlobalBlock
  | [] => []
  | b :: rest =>
    if b.Admissible taken then b :: admitted (b.span :: taken) rest else admitted taken rest

variable {taken other : List Span} {b : GlobalBlock} {blocks : List GlobalBlock}

theorem admissible_congr (same : ∀ s, s ∈ taken ↔ s ∈ other) :
    b.Admissible taken ↔ b.Admissible other :=
  and_congr_right fun _ => forall_congr' fun s => imp_congr_left (same s)

theorem admitted_congr (same : ∀ s, s ∈ taken ↔ s ∈ other) (blocks : List GlobalBlock) :
    admitted taken blocks = admitted other blocks := by
  induction blocks generalizing taken other with
  | nil => rfl
  | cons b rest ih =>
    have grown : ∀ s, s ∈ b.span :: taken ↔ s ∈ b.span :: other := by
      intro s
      rw [List.mem_cons, List.mem_cons, same]
    simp only [admitted, admissible_congr same, ih same, ih grown]

theorem sound_iff : b.Sound ↔ ∃ interval, Interval.ofSize? b.address b.size = some interval := by
  constructor
  · intro sound
    cases fits : Interval.ofSize? b.address b.size with
    | none => exact absurd sound.2 ((Interval.ofSize?_eq_none_iff sound.1).1 fits)
    | some interval => exact ⟨interval, rfl⟩
  · rintro ⟨interval, fits⟩
    obtain ⟨solid, whole, -⟩ := Interval.ofSize?_eq_some_iff.1 fits
    exact ⟨solid, whole⟩

theorem Sound.meets_self (sound : b.Sound) : b.span.Meets b.span := by
  have solid : 0 < b.span.size.toNat := UInt64.lt_iff_toNat_lt.1 sound.1
  exact Span.meets_of_le (Nat.le_refl _) (Nat.lt_add_of_pos_right solid) solid

theorem Sound.exists_meets (sound : b.Sound) (member : b ∈ blocks) (taken : List Span) :
    ∃ s ∈ taken ++ (admitted taken blocks).map span, s.Meets b.span := by
  induction blocks generalizing taken with
  | nil => contradiction
  | cons first rest ih =>
    by_cases admits : first.Admissible taken
    · simp only [admitted, if_pos admits, List.map_cons]
      rcases List.mem_cons.1 member with rfl | later
      · exact ⟨b.span, by simp, sound.meets_self⟩
      · obtain ⟨s, held, meets⟩ := ih later (first.span :: taken)
        exact ⟨s, List.perm_middle.mem_iff.2 held, meets⟩
    · simp only [admitted, if_neg admits]
      rcases List.mem_cons.1 member with rfl | later
      · have met : ∃ s ∈ taken, s.Meets b.span := by
          by_contra free
          exact admits ⟨sound, fun s held meets => free ⟨s, held, meets⟩⟩
        obtain ⟨s, held, meets⟩ := met
        exact ⟨s, List.mem_append_left _ held, meets⟩
      · exact ih later taken

example : (admitted [⟨0x5000, 64⟩] [⟨0x503f, 8, true, "crossing", ""⟩, ⟨0x6000, 0, true, "nothing", ""⟩,
    ⟨0x6000, 32, true, "ring", ""⟩, ⟨0x6010, 4, true, "inner", ""⟩,
    ⟨0xfffffffffffffff8, 16, true, "wrapping", ""⟩]).map (·.name) = ["ring"] := by
  decide

structure Registered (catalog : Catalog) (b : GlobalBlock) (e : Entry GlobalRef) : Prop where
  span : e.interval.span = b.span
  interned : catalog.internGlobal b = (e.value, catalog)
  known : catalog.global e.value = .ok b

end GlobalBlock

namespace Checker

variable {c after : Checker} {b : GlobalBlock} {blocks rest : List GlobalBlock}

def afterRefusal (c : Checker) (b : GlobalBlock) : Checker :=
  { c with
    catalog := (c.catalog.internGlobal b).2
    overlapWarnings := c.overlapWarnings - 1 }

def entryFor (c : Checker) (b : GlobalBlock) (interval : Interval) : Entry GlobalRef :=
  ⟨interval, c.globals.nextId, (c.catalog.internGlobal b).1⟩

def afterRegistering (c : Checker) (b : GlobalBlock) (interval : Interval) : Checker :=
  { c with
    catalog := (c.catalog.internGlobal b).2
    globals := ⟨IntervalMap.place (c.entryFor b interval) c.globals.entries,
      ⟨c.globals.nextId.index + 1⟩⟩ }

theorem registerGlobals_unsound (unsound : ¬b.Sound) :
    c.registerGlobals (b :: rest) = c.registerGlobals rest := by
  have nowhere : Interval.ofSize? b.address b.size = none :=
    Option.eq_none_iff_forall_ne_some.2 fun interval fits =>
      unsound (GlobalBlock.sound_iff.2 ⟨interval, fits⟩)
  rw [registerGlobals, nowhere]

section Sound

variable {interval : Interval}

theorem admissible_iff (fits : Interval.ofSize? b.address b.size = some interval) :
    b.Admissible c.globals.spans ↔ ∀ e ∈ c.globals.entries, ¬e.interval.Overlaps interval := by
  have spans : interval.span = b.span := (Interval.ofSize?_eq_some_iff.1 fits).2.2
  have sound := GlobalBlock.sound_iff.2 ⟨interval, fits⟩
  simp only [GlobalBlock.Admissible, sound, true_and, IntervalMap.spans, List.forall_mem_map,
    Interval.overlaps_iff_meets, spans]

theorem registerGlobals_refused (fits : Interval.ofSize? b.address b.size = some interval)
    {e : Entry GlobalRef} (member : e ∈ c.globals.entries) (overlaps : e.interval.Overlaps interval) :
    (c.registerGlobals (b :: rest)).checker =
      ((c.afterRefusal b).registerGlobals rest).checker := by
  rw [registerGlobals, fits]
  dsimp only
  split
  · next id globals inserted =>
    obtain ⟨free, -⟩ := IntervalMap.insert_eq_ok inserted
    exact absurd overlaps (free e member)
  · split
    · next silent =>
      -- With no warning left there is none to take away.
      have same : c.afterRefusal b = { c with catalog := (c.catalog.internGlobal b).2 } := by
        simp [afterRefusal, silent]
      rw [same]
    · rfl

theorem registerGlobals_registered (fits : Interval.ofSize? b.address b.size = some interval)
    (free : ∀ e ∈ c.globals.entries, ¬e.interval.Overlaps interval) :
    (c.registerGlobals (b :: rest)).checker =
      ((c.afterRegistering b interval).registerGlobals rest).checker := by
  have inserted : c.globals.insert interval (c.catalog.internGlobal b).1 =
      .ok (c.globals.nextId, (c.afterRegistering b interval).globals) :=
    IntervalMap.insert_eq_ok_iff.2 ⟨free, rfl, rfl⟩
  rw [registerGlobals, fits]
  dsimp only
  rw [inserted]
  rfl

end Sound

structure Admits (blocks : List GlobalBlock) (c after : Checker) : Prop where
  catalog : c.catalog.Extends after.catalog
  interned : ∀ b ∈ blocks, b.Sound → (after.catalog.internGlobal b).2 = after.catalog
  counted : after.globals.nextId.index =
    c.globals.nextId.index + (GlobalBlock.admitted c.globals.spans blocks).length
  entries : ∃ new : List (Entry GlobalRef),
    List.Forall₂ (GlobalBlock.Registered after.catalog) (GlobalBlock.admitted c.globals.spans blocks) new ∧
    new.map (·.id.index) = List.range' c.globals.nextId.index new.length ∧
    after.globals.entries.Perm (new ++ c.globals.entries)

/-- A block is passed over. It is in the catalog all the same if it is sound. -/
theorem Admits.pass {d : Checker} (admits : d.Admits rest after)
    (refused : ¬b.Admissible c.globals.spans) (globals : d.globals = c.globals)
    (grown : c.catalog.Extends d.catalog)
    (interned : b.Sound → (after.catalog.internGlobal b).2 = after.catalog) :
    c.Admits (b :: rest) after := by
  have same : GlobalBlock.admitted c.globals.spans (b :: rest) = GlobalBlock.admitted d.globals.spans rest := by
    rw [GlobalBlock.admitted, if_neg refused, globals]
  refine ⟨grown.trans admits.catalog, fun other member sound => ?_, ?_, ?_⟩
  · rcases List.mem_cons.1 member with rfl | later
    · exact interned sound
    · exact admits.interned other later sound
  · rw [same, ← globals]
    exact admits.counted
  · rw [same, ← globals]
    exact admits.entries

theorem Admits.register {interval : Interval}
    (admits : (c.afterRegistering b interval).Admits rest after)
    (admissible : b.Admissible c.globals.spans) (spans : interval.span = b.span) :
    c.Admits (b :: rest) after := by
  have again := admits.catalog.internGlobal_again
  have perm := IntervalMap.perm_place (c.entryFor b interval) c.globals.entries
  have same : GlobalBlock.admitted c.globals.spans (b :: rest) =
      b :: GlobalBlock.admitted (c.afterRegistering b interval).globals.spans rest := by
    rw [GlobalBlock.admitted, if_pos admissible]
    have grown : (c.afterRegistering b interval).globals.spans.Perm (b.span :: c.globals.spans) := by
      rw [← spans]
      exact perm.map _
    exact congrArg (b :: ·) (GlobalBlock.admitted_congr (fun s => grown.mem_iff.symm) rest)
  refine ⟨(c.catalog.extends_internGlobal b).trans admits.catalog, fun other member sound => ?_,
    ?_, ?_⟩
  · rcases List.mem_cons.1 member with rfl | later
    · exact congrArg Prod.snd again
    · exact admits.interned other later sound
  · have counted := admits.counted
    rw [same, List.length_cons, counted]
    show c.globals.nextId.index + 1 + _ = _
    omega
  · obtain ⟨new, stand, numbers, entries⟩ := admits.entries
    refine ⟨c.entryFor b interval :: new, ?_, ?_, ?_⟩
    · rw [same]
      exact .cons ⟨spans, again, admits.catalog.global (c.catalog.global_internGlobal b)⟩ stand
    · rw [List.map_cons, numbers]
      rfl
    · exact entries.trans ((perm.append_left new).trans List.perm_middle)

theorem registerGlobals_admits (c : Checker) (blocks : List GlobalBlock) :
    c.Admits blocks (c.registerGlobals blocks).checker := by
  -- Each block is met in the state that those before it have left.
  induction blocks generalizing c with
  | nil => exact ⟨.refl _, fun b absurd => by contradiction, rfl, [], .nil, rfl, .refl _⟩
  | cons b rest ih =>
    by_cases sound : b.Sound
    · obtain ⟨interval, fits⟩ := GlobalBlock.sound_iff.1 sound
      by_cases admissible : b.Admissible c.globals.spans
      · have spans := (Interval.ofSize?_eq_some_iff.1 fits).2.2
        rw [registerGlobals_registered fits ((admissible_iff fits).1 admissible)]
        exact (ih _).register admissible spans
      · have overlapped := mt (admissible_iff fits).2 admissible
        simp only [not_forall, not_not] at overlapped
        obtain ⟨e, member, overlaps⟩ := overlapped
        rw [registerGlobals_refused fits member overlaps]
        have admits := ih (c.afterRefusal b)
        exact admits.pass admissible rfl (c.catalog.extends_internGlobal b) fun _ =>
          congrArg Prod.snd admits.catalog.internGlobal_again
    · have refused : ¬b.Admissible c.globals.spans := fun admissible => sound admissible.1
      rw [registerGlobals_unsound sound]
      exact (ih c).pass refused rfl (.refl _) fun solid => absurd solid sound

theorem Admits.spans (admits : c.Admits blocks after) : after.globals.spans.Perm
    ((GlobalBlock.admitted c.globals.spans blocks).map GlobalBlock.span ++ c.globals.spans) := by
  obtain ⟨new, stand, -, entries⟩ := admits.entries
  have same : (GlobalBlock.admitted c.globals.spans blocks).map GlobalBlock.span =
      new.map (·.interval.span) := by
    rw [← List.forall₂_eq_eq_eq, List.forall₂_map_left_iff, List.forall₂_map_right_iff]
    exact stand.imp fun b e registered => registered.span.symm
  have perm := entries.map (·.interval.span)
  rw [List.map_append, ← same] at perm
  exact perm

theorem Admits.covered (admits : c.Admits blocks after) (sound : b.Sound) (member : b ∈ blocks) :
    ∃ e ∈ after.globals.entries, e.interval.span.Meets b.span := by
  obtain ⟨s, held, meets⟩ := sound.exists_meets member c.globals.spans
  have there := (admits.spans.trans List.perm_append_comm).mem_iff.2 held
  obtain ⟨e, entry, rfl⟩ := List.mem_map.1 there
  exact ⟨e, entry, meets⟩

theorem Admits.registered_or_old (admits : c.Admits blocks after) {e : Entry GlobalRef}
    (member : e ∈ after.globals.entries) :
    (∃ b, GlobalBlock.Registered after.catalog b e) ∨ e ∈ c.globals.entries := by
  obtain ⟨new, stand, -, entries⟩ := admits.entries
  rcases List.mem_append.1 (entries.mem_iff.1 member) with fresh | old
  · obtain ⟨place, rfl⟩ := List.mem_iff_get.1 fresh
    have inside : place.val < (GlobalBlock.admitted c.globals.spans blocks).length := by
      rw [stand.length_eq]
      exact place.isLt
    exact .inl ⟨_, (List.forall₂_iff_get.1 stand).2 place inside place.isLt⟩
  · exact .inr old

theorem Admits.added (admits : c.Admits blocks after) :
    after.globals.size =
      c.globals.size + (GlobalBlock.admitted c.globals.spans blocks).length := by
  have counted := admits.spans.length_eq
  unfold IntervalMap.spans at counted
  simp only [List.length_append, List.length_map] at counted
  exact counted.trans (Nat.add_comm _ _)

/-- Blocks that are in the catalog and have an address that is taken leave all but the warnings. -/
theorem registerGlobals_known
    (interned : ∀ b ∈ blocks, b.Sound → (c.catalog.internGlobal b).2 = c.catalog)
    (covered : ∀ b ∈ blocks, b.Sound → ∃ e ∈ c.globals.entries, e.interval.span.Meets b.span) :
    ∃ warnings, (c.registerGlobals blocks).checker = { c with overlapWarnings := warnings } := by
  induction blocks generalizing c with
  | nil => exact ⟨c.overlapWarnings, rfl⟩
  | cons b rest ih =>
    have later : ∀ other ∈ rest, other ∈ b :: rest := fun _ => List.mem_cons_of_mem b
    by_cases sound : b.Sound
    · obtain ⟨interval, fits⟩ := GlobalBlock.sound_iff.1 sound
      obtain ⟨e, member, meets⟩ := covered b (.head rest) sound
      have overlaps : e.interval.Overlaps interval := by
        rw [Interval.overlaps_iff_meets, (Interval.ofSize?_eq_some_iff.1 fits).2.2]
        exact meets
      have same : c.afterRefusal b = { c with overlapWarnings := c.overlapWarnings - 1 } := by
        unfold afterRefusal
        rw [interned b (.head rest) sound]
      rw [registerGlobals_refused fits member overlaps, same]
      exact ih (fun other held => interned other (later other held))
        fun other held => covered other (later other held)
    · rw [registerGlobals_unsound sound]
      exact ih (fun other held => interned other (later other held))
        fun other held => covered other (later other held)

theorem registerGlobals_rest (c : Checker) (blocks : List GlobalBlock) :
    (c.registerGlobals blocks).checker =
      { c with
        catalog := (c.registerGlobals blocks).checker.catalog
        globals := (c.registerGlobals blocks).checker.globals
        overlapWarnings := (c.registerGlobals blocks).checker.overlapWarnings } := by
  apply registerGlobals_induct (P := fun d => d = { c with
    catalog := d.catalog, globals := d.globals, overlapWarnings := d.overlapWarnings })
  · intro d block same
    rw [same]
  · intro d interval g id globals inserted same
    rw [same]
  · intro d same
    rw [same]
  · rfl

end Checker

end Overrun
