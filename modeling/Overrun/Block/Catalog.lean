import Overrun.Block.Descriptor
import Overrun.Block.Pool
import Overrun.Fault

/-! Every block vector and global block a checker has seen, each kept once. Vectors are kept in
canonical form, so equal frames share one handle. -/

namespace Overrun

structure Catalog where
  vectors : Pool (List StackBlock)
  globals : Pool GlobalBlock
  deriving DecidableEq, Repr

namespace Catalog

def empty : Catalog := ⟨∅, ∅⟩

instance : EmptyCollection Catalog := ⟨empty⟩

instance : Inhabited Catalog := ⟨empty⟩

def internVector (c : Catalog) (blocks : List StackBlock) : VectorRef × Catalog :=
  let (handle, vectors) := c.vectors.intern (StackBlock.canonical blocks)
  (⟨handle⟩, { c with vectors := vectors })

def internGlobal (c : Catalog) (block : GlobalBlock) : GlobalRef × Catalog :=
  let (handle, globals) := c.globals.intern block
  (⟨handle⟩, { c with globals := globals })

def vector (c : Catalog) (v : VectorRef) : Except Fault (List StackBlock) :=
  match c.vectors.get? v.index with
  | some blocks => .ok blocks
  | none => .error (.outOfRange c.vectors.size v.index)

def block (c : Catalog) (b : BlockRef) : Except Fault StackBlock := do
  let blocks ← c.vector b.vector
  match blocks[b.index]? with
  | some block => return block
  | none => throw (.outOfRange blocks.length b.index)

def global (c : Catalog) (g : GlobalRef) : Except Fault GlobalBlock :=
  match c.globals.get? g.index with
  | some block => .ok block
  | none => .error (.outOfRange c.globals.size g.index)

end Catalog

end Overrun
