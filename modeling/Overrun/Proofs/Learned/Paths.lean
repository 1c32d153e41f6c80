import Overrun.Proofs.Learned.Probing

/-! The slots that a search looks at, one after another from the home of its instruction on and round
the end. It stops at the first of them that is free or holds the instruction, so a free slot anywhere
is enough for every search to end. -/

namespace Overrun.SiteTable

variable {slots : Array (Option Site)} {address : UInt64} {start steps limit slot : Nat} {site : Site}

def around (slots : Array (Option Site)) (start steps : Nat) : Nat :=
  (start + steps) % slots.size

theorem around_zero (inside : start < slots.size) : around slots start 0 = start :=
  Nat.mod_eq_of_lt inside

theorem around_next (slots : Array (Option Site)) (start steps : Nat) :
    around slots ((start + 1) % slots.size) steps = around slots start (steps + 1) := by
  unfold around
  rw [Nat.mod_add_mod, Nat.add_assoc, Nat.add_comm 1]

theorem exists_around (inside : slot < slots.size) (start : Nat) :
    ∃ steps < slots.size, around slots start steps = slot := by
  have from_start : start % slots.size < slots.size := Nat.mod_lt _ (Nat.zero_lt_of_lt inside)
  unfold around
  by_cases ahead : start % slots.size ≤ slot
  · refine ⟨slot - start % slots.size, by omega, ?_⟩
    rw [← Nat.mod_add_mod, Nat.add_sub_cancel' ahead, Nat.mod_eq_of_lt inside]
  · refine ⟨slot + slots.size - start % slots.size, by omega, ?_⟩
    rw [← Nat.mod_add_mod, Nat.add_sub_cancel' (by omega), Nat.add_mod_right,
      Nat.mod_eq_of_lt inside]

def Passes (slots : Array (Option Site)) (address : UInt64) (start steps : Nat) : Prop :=
  ∀ earlier < steps, ∃ site,
    slots[around slots start earlier]?.join = some site ∧ site.address ≠ address

theorem passes_zero : Passes slots address start 0 := by
  intro earlier before
  contradiction

theorem Passes.cons (inside : start < slots.size) (held : slots[start]?.join = some site)
    (other : site.address ≠ address)
    (later : Passes slots address ((start + 1) % slots.size) steps) :
    Passes slots address start (steps + 1) := by
  intro earlier before
  cases earlier with
  | zero =>
    rw [around_zero inside]
    exact ⟨site, held, other⟩
  | succ earlier =>
    rw [← around_next]
    exact later earlier (Nat.lt_of_succ_lt_succ before)

/-- Whether a search from `start` on comes to `slot` in less than `limit` steps, past other
instructions only. -/
def Comes (slots : Array (Option Site)) (address : UInt64) (start limit slot : Nat) : Prop :=
  ∃ steps < limit, around slots start steps = slot ∧ Passes slots address start steps

theorem comes_start (inside : start < slots.size) :
    Comes slots address start (limit + 1) start :=
  ⟨0, Nat.zero_lt_succ limit, around_zero inside, passes_zero⟩

theorem Comes.cons (inside : start < slots.size) (held : slots[start]?.join = some site)
    (other : site.address ≠ address)
    (later : Comes slots address ((start + 1) % slots.size) limit slot) :
    Comes slots address start (limit + 1) slot := by
  obtain ⟨steps, within, reached, passes⟩ := later
  refine ⟨steps + 1, Nat.succ_lt_succ within, ?_, passes.cons inside held other⟩
  rw [← around_next, reached]

inductive Ends (slots : Array (Option Site)) (address : UInt64) (start limit : Nat) :
    Probe → Prop where
  | found {slot : Nat} {site : Site} (comes : Comes slots address start limit slot)
      (held : slots[slot]?.join = some site) (same : site.address = address) :
      Ends slots address start limit (.found slot site)
  | free {slot : Nat} (comes : Comes slots address start limit slot)
      (free : slots[slot]?.join = none) : Ends slots address start limit (.free slot)
  | full (passes : Passes slots address start limit) : Ends slots address start limit .full

theorem Ends.cons {ended : Probe} (inside : start < slots.size)
    (held : slots[start]?.join = some site) (other : site.address ≠ address)
    (later : Ends slots address ((start + 1) % slots.size) limit ended) :
    Ends slots address start (limit + 1) ended := by
  cases later with
  | found comes here same => exact .found (comes.cons inside held other) here same
  | free comes free => exact .free (comes.cons inside held other) free
  | full passes => exact .full (passes.cons inside held other)

theorem probeFrom_ends (inside : start < slots.size) :
    Ends slots address start limit (probeFrom slots address start limit) := by
  induction limit generalizing start with
  | zero => exact .full passes_zero
  | succ limit ih =>
    unfold probeFrom
    split
    · next free => exact .free (comes_start inside) free
    · next site held =>
      split
      · next same => exact .found (comes_start inside) held same
      · next other =>
        have next : (start + 1) % slots.size < slots.size :=
          Nat.mod_lt _ (Nat.zero_lt_of_lt inside)
        exact (ih next).cons inside held other

theorem home_lt (some : 0 < slots.size) (address : UInt64) : home slots address < slots.size :=
  Nat.mod_lt _ some

theorem probeSlots_ends (some : 0 < slots.size) (address : UInt64) :
    Ends slots address (home slots address) slots.size (probeSlots slots address) :=
  probeFrom_ends (home_lt some address)

theorem Passes.not_free (passes : Passes slots address start slots.size)
    (inside : slot < slots.size) : slots[slot]?.join ≠ none := by
  obtain ⟨steps, within, rfl⟩ := exists_around inside start
  obtain ⟨site, held, -⟩ := passes steps within
  rw [held]
  exact Option.some_ne_none site

theorem probeSlots_ne_full (inside : slot < slots.size) (free : slots[slot]?.join = none)
    (address : UInt64) : probeSlots slots address ≠ .full := by
  intro full
  have ended := probeSlots_ends (Nat.zero_lt_of_lt inside) address
  rw [full] at ended
  cases ended with
  | full passes => exact passes.not_free inside free

theorem lt_of_held (held : slots[slot]?.join = some site) : slot < slots.size := by
  rw [Option.join_eq_some_iff] at held
  exact (Array.getElem?_eq_some_iff.1 held).1

theorem around_home (slots : Array (Option Site)) (address : UInt64) (steps : Nat) :
    around slots (home slots address) steps = (address.toNat + steps) % slots.size :=
  Nat.mod_add_mod _ _ _

/-- From where an address would have its site to where the site is, all slots are taken. -/
theorem Reached.path (reached : Reached slots) (held : slots[slot]?.join = some site) :
    ∃ steps < slots.size, (site.address.toNat + steps) % slots.size = slot ∧
      ∀ earlier ≤ steps, ∃ met : Site,
        slots[(site.address.toNat + earlier) % slots.size]? = some (some met) := by
  have ended := probeSlots_ends (Nat.zero_lt_of_lt (lt_of_held held)) site.address
  rw [(reached slot site held).2] at ended
  cases ended with
  | found comes here same =>
    obtain ⟨steps, within, comes, passes⟩ := comes
    have taken : ∀ earlier ≤ steps, ∃ met : Site,
        slots[around slots (home slots site.address) earlier]? = some (some met) := by
      intro earlier before
      rcases Nat.lt_or_eq_of_le before with before | rfl
      · obtain ⟨met, here, -⟩ := passes earlier before
        exact ⟨met, Option.join_eq_some_iff.1 here⟩
      · exact ⟨site, comes ▸ Option.join_eq_some_iff.1 held⟩
    simp only [around_home] at comes taken
    exact ⟨steps, within, comes, taken⟩

theorem Reached.once {first second : Nat} {other : Site} (reached : Reached slots)
    (held : slots[first]?.join = some site) (again : slots[second]?.join = some other)
    (same : site.address = other.address) : first = second := by
  have here := (reached first site held).2
  have there := (reached second other again).2
  rw [same, there] at here
  cases here
  rfl

end Overrun.SiteTable
