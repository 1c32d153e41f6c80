import Overrun.Fault

/-! An operation made of steps gives a result only if each of its steps does. -/

namespace Overrun

variable {ε α β : Type}

theorem bind_eq_ok {x : Except ε α} {f : α → Except ε β} {result : β} :
    (x >>= f) = .ok result ↔ ∃ a, x = .ok a ∧ f a = .ok result := by
  cases x with
  | error fault => simp [bind, Except.bind]
  | ok a => simp [bind, Except.bind]

theorem map_eq_ok {x : Except ε α} {f : α → β} {result : β} :
    x.map f = .ok result ↔ ∃ a, x = .ok a ∧ f a = result := by
  cases x with
  | error fault => simp [Except.map]
  | ok a => simp [Except.map]

theorem map_eq_error {x : Except ε α} {f : α → β} {fault : ε} :
    x.map f = .error fault ↔ x = .error fault := by
  cases x with
  | error other => simp [Except.map]
  | ok a => simp [Except.map]

theorem bind_eq_error {x : Except ε α} {f : α → Except ε β} {fault : ε} :
    (x >>= f) = .error fault ↔ x = .error fault ∨ ∃ a, x = .ok a ∧ f a = .error fault := by
  cases x with
  | error fault => simp [bind, Except.bind]
  | ok a => simp [bind, Except.bind]

theorem exists_of_isOk {x : Except ε α} (fine : x.isOk = true) : ∃ a, x = .ok a := by
  cases x with
  | error fault => contradiction
  | ok a => exact ⟨a, rfl⟩

theorem eq_ok_getD {x : Except ε α} (fine : x.isOk = true) (default : α) :
    x = .ok (x.toOption.getD default) := by
  obtain ⟨a, rfl⟩ := exists_of_isOk fine
  rfl

theorem toOption_bind_eq_some {x : Except ε α} {f : α → Option β} {result : β} :
    x.toOption.bind f = some result ↔ ∃ a, x = .ok a ∧ f a = some result := by
  cases x with
  | error fault => simp [Except.toOption]
  | ok a => simp [Except.toOption]

theorem toOption_eq_some {x : Except ε α} {a : α} : x.toOption = some a ↔ x = .ok a := by
  cases x with
  | error fault => simp [Except.toOption]
  | ok b => simp [Except.toOption]

theorem map_bind {γ : Type} (x : Except ε α) (f : α → β) (g : β → Except ε γ) :
    (x.map f >>= g) = (x >>= fun a => g (f a)) := by
  cases x <;> rfl

theorem bind_eq_map_bind {γ : Type} {x : Except ε α} {f : α → Except ε γ} {g : α → Except ε β}
    {φ : β → γ} (same : ∀ a, x = .ok a → f a = (g a).map φ) : (x >>= f) = (x >>= g).map φ := by
  cases x with
  | error fault => rfl
  | ok a => exact same a rfl

end Overrun
