import Overrun.Address.Span

/-! Blocks of the stack and of global storage as debug information describes them. -/

namespace Overrun

/-- A block of a stack frame, at a fixed distance from the stack or the frame pointer. -/
structure StackBlock where
  base : Int64
  size : UInt64
  spRelative : Bool
  isArray : Bool
  name : String
  deriving DecidableEq, Repr

/-- A block at a fixed address, in the object called `object`. -/
structure GlobalBlock where
  address : UInt64
  size : UInt64
  isArray : Bool
  name : String
  object : String
  deriving DecidableEq, Repr

namespace StackBlock

/-- By base, then size, addressing, kind and name. -/
def order : StackBlock → StackBlock → Ordering :=
  compareLex (compareOn base) <| compareLex (compareOn size) <|
    compareLex (compareOn spRelative) <| compareLex (compareOn isArray) (compareOn name)

instance : Ord StackBlock := ⟨order⟩

def precedes (a b : StackBlock) : Bool :=
  (order a b).isLE

/-- Where the block starts for given values of the two pointers, modulo the address space. -/
def address (b : StackBlock) (sp fp : UInt64) : UInt64 :=
  (if b.spRelative then sp else fp) + b.base.toUInt64

def span (b : StackBlock) (sp fp : UInt64) : Span :=
  ⟨b.address sp fp, b.size⟩

/-- Blocks of one slot start at the same address whatever the pointers are. -/
def slot (b : StackBlock) : Int64 × Bool :=
  (b.base, b.spRelative)

/-- Of two blocks of a slot the larger is kept, and of equally large ones the lower in order. -/
def preferredTo (a b : StackBlock) : Bool :=
  b.size < a.size || a.size == b.size && a.precedes b

/-- Puts a block in its place among blocks in order, unless it is there already. -/
def insertOrdered (b : StackBlock) : List StackBlock → List StackBlock
  | [] => [b]
  | c :: rest =>
    match order b c with
    | .lt => b :: c :: rest
    | .eq => c :: rest
    | .gt => c :: insertOrdered b rest

/-- The blocks that hold something, one for each slot, in order. -/
def canonical (blocks : List StackBlock) : List StackBlock :=
  let solid := blocks.filter fun b => 0 < b.size
  let kept := solid.filter fun b => solid.all fun c => c.slot != b.slot || b.preferredTo c
  kept.foldr insertOrdered []

end StackBlock

/-- By address, then size, kind, name and object. -/
def GlobalBlock.order : GlobalBlock → GlobalBlock → Ordering :=
  compareLex (compareOn address) <| compareLex (compareOn size) <|
    compareLex (compareOn isArray) <| compareLex (compareOn name) (compareOn object)

instance : Ord GlobalBlock := ⟨GlobalBlock.order⟩

end Overrun
