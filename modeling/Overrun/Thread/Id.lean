/-! Guest threads are named by the slot they occupy, of which there are fewer than `2 ^ 32`. -/

namespace Overrun

structure ThreadId where
  index : Nat
  deriving DecidableEq, Repr

def ThreadId.text (tid : ThreadId) : String :=
  s!"thread{tid.index}"

instance : ToString ThreadId := ⟨ThreadId.text⟩

end Overrun
