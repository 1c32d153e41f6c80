import Overrun.Proofs.Checker.Effects
import Overrun.Proofs.Checker.Reachable

/-! The faults that operations can end with. Most come of a thread or a handle that is not there, or of
debug information that makes no sense. What an instruction passes on is doubted by the search for its
site alone, and the state by the search for contradictions alone, which finds none. -/

namespace Overrun

/-- Whether a computation that has no result ends with a fault of the allowed ones. -/
def FaultsOnly {α : Type} (allowed : Fault → Prop) (x : Except Fault α) : Prop :=
  ∀ fault, x = .error fault → allowed fault

/-- Faults that doubt neither what an instruction passes on nor the state itself. -/
@[simp] def Fault.ordinary : Fault → Bool
  | zeroInstruction | vectorsDiffer .. | inconsistent .. => false
  | _ => true

@[simp] def Fault.isComplaint : Fault → Bool
  | inconsistent .. => true
  | _ => false

theorem Fault.not_isComplaint_of_ordinary {fault : Fault} (ordinary : fault.ordinary = true) :
    fault.isComplaint = false := by
  cases fault <;> simp_all

abbrev Ordinary {α : Type} (x : Except Fault α) : Prop :=
  FaultsOnly (fun fault => fault.ordinary = true) x

section FaultsOnly

variable {α β : Type} {allowed more : Fault → Prop} {x : Except Fault α}

@[simp] theorem faultsOnly_ok (a : α) : FaultsOnly allowed (.ok a) := by
  intro fault absurd
  contradiction

@[simp] theorem faultsOnly_error {fault : Fault} :
    FaultsOnly allowed (.error fault : Except Fault α) ↔ allowed fault := by
  unfold FaultsOnly
  simp

@[simp] theorem faultsOnly_pure (a : α) : FaultsOnly allowed (pure a) :=
  faultsOnly_ok a

@[simp] theorem faultsOnly_throw {fault : Fault} :
    FaultsOnly allowed (throw fault : Except Fault α) ↔ allowed fault :=
  faultsOnly_error

theorem FaultsOnly.mono (only : FaultsOnly allowed x) (fewer : ∀ fault, allowed fault → more fault) :
    FaultsOnly more x :=
  fun fault failed => fewer fault (only fault failed)

theorem FaultsOnly.bind {f : α → Except Fault β} (first : FaultsOnly allowed x)
    (later : ∀ a, x = .ok a → FaultsOnly allowed (f a)) : FaultsOnly allowed (x >>= f) := by
  intro fault failed
  rcases bind_eq_error.1 failed with early | ⟨a, passed, late⟩
  · exact first fault early
  · exact later a passed fault late

theorem FaultsOnly.map (only : FaultsOnly allowed x) (f : α → β) :
    FaultsOnly allowed (x.map f) := by
  cases x with
  | ok a => simp [Except.map]
  | error fault => simpa [Except.map] using only

end FaultsOnly

theorem Catalog.ordinary_vector (c : Catalog) (v : VectorRef) : Ordinary (c.vector v) := by
  unfold vector
  split <;> simp

theorem Catalog.ordinary_block (c : Catalog) (b : BlockRef) : Ordinary (c.block b) := by
  apply (c.ordinary_vector b.vector).bind
  intro blocks known
  split <;> simp

theorem Catalog.ordinary_global (c : Catalog) (g : GlobalRef) : Ordinary (c.global g) := by
  unfold global
  split <;> simp

theorem Invariant.ordinary_text (inv : Invariant) (catalog : Catalog) (here : Nat) :
    Ordinary (inv.text catalog here) := by
  cases inv with
  | unset => simp [text]
  | unknown => simp [text]
  | ownFrame span block =>
    apply (catalog.ordinary_block block).bind
    intro found known
    exact faultsOnly_pure _
  | callerFrame node span block depth =>
    apply (catalog.ordinary_block block).bind
    intro found known
    exact faultsOnly_pure _
  | global node span block =>
    apply (catalog.ordinary_global block).bind
    intro found known
    exact faultsOnly_pure _

namespace SiteTable

theorem ordinary_refill (used : Nat) (slots : Array (Option Site)) (sites : List Site) :
    Ordinary (refill used slots sites) := by
  induction sites generalizing slots with
  | nil => simp [refill]
  | cons site rest ih =>
    unfold refill
    split
    · simp
    · simp
    · exact ih _

theorem ordinary_makeRoom (t : SiteTable) : Ordinary t.makeRoom := by
  unfold makeRoom
  split
  · apply (ordinary_refill _ _ _).bind
    intro slots refilled
    exact faultsOnly_pure _
  · simp

theorem ordinary_create (t : SiteTable) (address : UInt64) (vector : VectorRef) :
    Ordinary (t.create address vector) := by
  apply t.ordinary_makeRoom.bind
  intro grown made
  split <;> simp

theorem findOrCreate_faults (t : SiteTable) (address : UInt64) (vector : VectorRef) :
    FaultsOnly (fun fault => fault.isComplaint = false) (t.findOrCreate address vector) := by
  unfold findOrCreate
  split
  · simp
  · split
    · simp
    · exact (t.ordinary_create address vector).mono fun _ => Fault.not_isComplaint_of_ordinary
    · split <;> simp

theorem ordinary_findOrCreate {t : SiteTable} {address : UInt64} {vector : VectorRef}
    (nonzero : address ≠ 0) (known : ∀ site, t.find? address = some site → site.vector = vector) :
    Ordinary (t.findOrCreate address vector) := by
  unfold findOrCreate
  rw [if_neg nonzero]
  split
  · simp
  · exact t.ordinary_create address vector
  · next slot site probed =>
    rw [if_pos (known site (find?_of_found probed))]
    exact faultsOnly_ok _

end SiteTable

theorem ordinary_registerBlocks (tid : ThreadId) (hook : CallHook) (depth index : Nat)
    (map : IntervalMap Registration) (blocks : List StackBlock) :
    Ordinary (registerBlocks tid hook depth index map blocks) := by
  induction blocks generalizing index map with
  | nil => simp [registerBlocks]
  | cons block rest ih =>
    unfold registerBlocks
    dsimp only
    split
    · apply (ih (index + 1) map).bind
      intro r registered
      exact faultsOnly_pure _
    · split
      · simp
      · next id after inserted =>
        apply (ih (index + 1) after).bind
        intro r registered
        exact faultsOnly_pure _

theorem Thread.ordinary_call (t : Thread) (tid : ThreadId) (hook : CallHook)
    (blocks : List StackBlock) : Ordinary (t.call tid hook blocks) := by
  apply (ordinary_registerBlocks tid hook _ _ _ blocks).bind
  intro r registered
  exact faultsOnly_pure _

namespace Checker

variable {c : Checker}

theorem ordinary_thread (c : Checker) (tid : ThreadId) : Ordinary (c.thread tid) := by
  unfold thread
  split <;> simp

theorem ordinary_createThread (c : Checker) (parent : Option ThreadId) (child : ThreadId) :
    Ordinary (c.createThread parent child) := by
  unfold createThread
  split <;> simp

theorem ordinary_startThread (c : Checker) (tid : ThreadId) (sp : UInt64) :
    Ordinary (c.startThread tid sp) := by
  apply (c.ordinary_thread tid).bind
  intro t found
  exact faultsOnly_pure _

theorem ordinary_classify (c : Checker) (tid : ThreadId) (access : Access)
    (vector : VectorRef) : Ordinary (c.classify tid access vector) := by
  apply (c.ordinary_thread tid).bind
  intro t found
  apply (c.catalog.ordinary_vector vector).bind
  intro blocks known
  exact faultsOnly_pure _

theorem ordinary_reportVerdict (env : Environment) (c : Checker) (tid : ThreadId)
    (depth : Nat) (hook : AccessHook) (learned fresh : Invariant) :
    Ordinary (c.reportVerdict env tid depth hook learned fresh) := by
  have diagnosed : Ordinary (c.diagnose env tid depth hook learned fresh) := by
    apply (learned.ordinary_text c.catalog depth).bind
    intro expected worded
    apply (fresh.ordinary_text c.catalog depth).bind
    intro actual worded
    exact faultsOnly_pure _
  unfold reportVerdict
  split
  · simp
  · simp
  · simp
  · apply diagnosed.bind
    intro d made
    exact faultsOnly_pure _

theorem access_faults {allowed : Fault → Prop} (env : Environment) (c : Checker) (tid : ThreadId)
    (hook : AccessHook) (usual : ∀ fault, fault.ordinary = true → allowed fault)
    (finds : ∀ t, c.thread? tid = some t →
      FaultsOnly allowed (t.stack.top.sites.findOrCreate hook.instruction hook.vector)) :
    FaultsOnly allowed (c.access env tid hook) := by
  rw [access_eq]
  apply ((c.ordinary_thread tid).mono usual).bind
  intro t found
  apply ((c.catalog.ordinary_vector hook.vector).mono usual).bind
  intro blocks known
  have searched := finds t (thread_eq_ok_iff.1 found)
  rw [← classify_stack t c.globals hook.vector blocks hook.access] at searched
  apply searched.bind
  intro l located
  exact (ordinary_reportVerdict env _ tid _ hook _ _).mono usual

namespace WellFormed

theorem ordinary_call (wf : c.WellFormed) (tid : ThreadId) (hook : CallHook) :
    Ordinary (c.call tid hook) := by
  rw [call_eq]
  apply (c.ordinary_thread tid).bind
  intro t found
  apply (c.catalog.ordinary_vector hook.vector).bind
  intro blocks known
  apply (t.ordinary_call tid hook blocks).bind
  intro called calling
  rw [(wf.afterCall found calling).checked]
  exact faultsOnly_pure _

theorem ordinary_unwind (wf : c.WellFormed) (tid : ThreadId) (sp : UInt64) :
    Ordinary (c.unwind tid sp) := by
  cases absent : c.thread tid with
  | error fault =>
    have missing := c.ordinary_thread tid
    rw [absent] at missing
    rw [unwind_eq, absent]
    exact missing.bind fun _ found => by contradiction
  | ok t =>
    obtain ⟨u, unwinding, -⟩ := (wf.thread absent).unwind_ok tid sp
    rw [wf.unwind_ok_iff.2 ⟨t, u, thread_eq_ok_iff.1 absent, unwinding, rfl⟩]
    exact faultsOnly_ok _

theorem step_faults (wf : c.WellFormed) {allowed : Fault → Prop} (env : Environment)
    (op : Operation) (usual : ∀ fault, fault.ordinary = true → allowed fault)
    (finds : ∀ tid hook t, op = .access tid hook → c.thread? tid = some t →
      FaultsOnly allowed (t.stack.top.sites.findOrCreate hook.instruction hook.vector)) :
    FaultsOnly allowed (c.step env op) := by
  cases op with
  | createThread parent child => exact ((c.ordinary_createThread parent child).map _).mono usual
  | startThread tid sp => exact ((c.ordinary_startThread tid sp).map _).mono usual
  | exitThread tid => exact faultsOnly_ok _
  | call tid hook => exact ((wf.ordinary_call tid hook).map _).mono usual
  | unwind tid sp => exact ((wf.ordinary_unwind tid sp).map _).mono usual
  | access tid hook => exact (access_faults env c tid hook usual fun t => finds tid hook t rfl).map _
  | classify tid access vector => exact ((c.ordinary_classify tid access vector).map _).mono usual
  | loadGlobals handle =>
    obtain ⟨events, loaded⟩ := wf.loadGlobals_ok env handle
    unfold Checker.step
    dsimp only
    rw [loaded]
    exact faultsOnly_ok _
  | unmap region =>
    obtain ⟨events, gone⟩ := wf.unmap_ok region
    unfold Checker.step
    dsimp only
    rw [gone]
    exact faultsOnly_ok _
  | internVector blocks => exact faultsOnly_ok _
  | vectorAt instruction => exact faultsOnly_ok _
  | instrument block layout hooks =>
    unfold Checker.step
    dsimp only
    split
    · exact faultsOnly_ok _
    · exact faultsOnly_error.2 (usual _ rfl)
  | takeDiagnostics => exact faultsOnly_ok _
  | summarize => exact faultsOnly_ok _

/-- No run ends with the complaint that the state contradicts itself. -/
theorem run_faults (wf : c.WellFormed) (ops : List (Environment × Operation)) :
    FaultsOnly (fun fault => fault.isComplaint = false) (c.run ops) := by
  induction ops generalizing c with
  | nil => exact faultsOnly_ok _
  | cons first rest ih =>
    apply (wf.step_faults first.1 first.2 (fun _ => Fault.not_isComplaint_of_ordinary)
      fun tid hook t _ _ => t.stack.top.sites.findOrCreate_faults _ _).bind
    intro o stepped
    apply (ih (wf.step stepped)).bind
    intro last ran
    exact faultsOnly_pure _

end WellFormed

end Checker

end Overrun
