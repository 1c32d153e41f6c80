/-! Handles of the block vectors and global blocks that a catalog has taken in. There are fewer than
`2 ^ 32` of either, and of the blocks in one vector, so no handle has a bound here. -/

namespace Overrun

structure VectorRef where
  index : Nat
  deriving DecidableEq, Repr

structure GlobalRef where
  index : Nat
  deriving DecidableEq, Repr

/-- One block of a vector. -/
structure BlockRef where
  vector : VectorRef
  index : Nat
  deriving DecidableEq, Repr

def VectorRef.text (v : VectorRef) : String :=
  s!"blocks{v.index}"

instance : ToString VectorRef := ⟨VectorRef.text⟩

def GlobalRef.text (g : GlobalRef) : String :=
  s!"global{g.index}"

instance : ToString GlobalRef := ⟨GlobalRef.text⟩

end Overrun
