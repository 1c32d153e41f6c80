/-! Distinct values in order of first appearance. The position of a value is its handle, and it never
changes. -/

namespace Overrun

structure Pool (α : Type) where
  items : List α
  deriving DecidableEq, Repr

namespace Pool

variable {α : Type}

def empty : Pool α := ⟨[]⟩

instance : EmptyCollection (Pool α) := ⟨empty⟩

instance : Inhabited (Pool α) := ⟨empty⟩

def size (p : Pool α) : Nat :=
  p.items.length

def get? (p : Pool α) (handle : Nat) : Option α :=
  p.items[handle]?

def intern [DecidableEq α] (p : Pool α) (value : α) : Nat × Pool α :=
  match p.items.idxOf? value with
  | some handle => (handle, p)
  | none => (p.items.length, ⟨p.items ++ [value]⟩)

end Pool

end Overrun
