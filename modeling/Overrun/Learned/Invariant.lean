import Overrun.Block.Catalog

/-! What an instruction has learned about the memory it touches. -/

namespace Overrun

inductive Invariant where
  /-- No access has been seen. -/
  | unset
  | unknown
  /-- A block of the instruction's own frame. -/
  | ownFrame (span : Span) (block : BlockRef)
  /-- A block that the activation at `depth` registered for the call it is in. -/
  | callerFrame (node : NodeId) (span : Span) (block : BlockRef) (depth : Nat)
  | global (node : NodeId) (span : Span) (block : GlobalRef)
  deriving DecidableEq, Repr

namespace Invariant

instance : Inhabited Invariant := ⟨unset⟩

inductive Kind where
  | unset
  | unknown
  | ownFrame
  | callerFrame
  | global
  deriving DecidableEq, Repr

def kind : Invariant → Kind
  | unset => .unset
  | unknown => .unknown
  | ownFrame .. => .ownFrame
  | callerFrame .. => .callerFrame
  | global .. => .global

def isUnset : Invariant → Bool
  | unset => true
  | _ => false

/-- The bytes the invariant confines its instruction to. -/
def span? : Invariant → Option Span
  | unset | unknown => none
  | ownFrame span _ | callerFrame _ span _ _ | global _ span _ => some span

def globalNode? : Invariant → Option NodeId
  | global node .. => some node
  | _ => none

/-- Whether a fresh classification confirms what was learned. Blocks of the own frame are told apart
by their bytes, registered blocks and globals by their entries. -/
def agrees : Invariant → Invariant → Bool
  | unset, unset | unknown, unknown => true
  | ownFrame a _, ownFrame b _ => a == b
  | callerFrame a .., callerFrame b .. | global a .., global b .. => a == b
  | _, _ => false

/-- How a fresh classification relates to what was learned. -/
inductive Verdict where
  | learned
  | confirmed
  | upgraded
  | mismatched
  deriving DecidableEq, Repr

def judge (learned fresh : Invariant) : Verdict :=
  if learned.isUnset then .learned
  else if learned.agrees fresh then .confirmed
  else if learned = .unknown then .upgraded
  else .mismatched

/-- A confirmed invariant stays as it is; any other gives way to the fresh one. -/
def revised (learned fresh : Invariant) : Invariant :=
  match judge learned fresh with
  | .confirmed => learned
  | .learned | .upgraded | .mismatched => fresh

def noun (isArray : Bool) : String :=
  if isArray then "array" else "non-array"

/-- The invariant in words, as seen from an activation at depth `here`. -/
def text (catalog : Catalog) (here : Nat) : Invariant → Except Fault String
  | unset => .ok "unset"
  | unknown => .ok "unknown"
  | ownFrame span block => do
    let block ← catalog.block block
    let noun := noun block.isArray
    return s!"stack {noun} \"{block.name}\" of size {span.size} in this frame"
  | callerFrame _ span block depth => do
    let block ← catalog.block block
    let noun := noun block.isArray
    let back := here - depth
    return s!"stack {noun} \"{block.name}\" of size {span.size} in frame {back} back from here"
  | global _ span block => do
    let block ← catalog.global block
    let noun := noun block.isArray
    return s!"global {noun} \"{block.name}\" of size {span.size}"
      ++ s!" in object with soname \"{block.object}\""

end Invariant

end Overrun
