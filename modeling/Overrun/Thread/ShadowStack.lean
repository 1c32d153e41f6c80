import Overrun.Address.Interval
import Overrun.Learned.SiteTable

/-! The calls a thread is in. Under all of them lies a sentinel that no stack pointer can rise
above; the depth of an activation is the number of activations under it. -/

namespace Overrun

structure Activation where
  /-- The stack pointer right after the call; the activation is over once it is above this. -/
  creationSp : UInt64
  spAtCall : UInt64
  fpAtCall : UInt64
  returnAddress : UInt64
  /-- Where the blocks start that are registered for the call this activation is in. -/
  registered : List UInt64
  sites : SiteTable
  deriving DecidableEq, Repr

namespace Activation

def entered (creationSp returnAddress : UInt64) : Activation :=
  ⟨creationSp, 0, 0, returnAddress, [], ∅⟩

def sentinel : Activation :=
  entered topAddress 0

def isSentinel (a : Activation) : Bool :=
  a.creationSp == topAddress

end Activation

/-- Innermost first; `below` ends with the bottom. -/
structure ShadowStack where
  top : Activation
  below : List Activation
  deriving DecidableEq, Repr

namespace ShadowStack

def initial : ShadowStack :=
  ⟨.sentinel, []⟩

instance : Inhabited ShadowStack := ⟨initial⟩

/-- Stacks are less than `2 ^ 32` deep, so depths have no bound here. -/
def depth (s : ShadowStack) : Nat :=
  s.below.length

/-- From the bottom up, so that positions are depths. -/
def frames (s : ShadowStack) : List Activation :=
  (s.top :: s.below).reverse

def get? (s : ShadowStack) (depth : Nat) : Option Activation :=
  s.frames[depth]?

def push (s : ShadowStack) (a : Activation) : ShadowStack :=
  ⟨a, s.top :: s.below⟩

def pop (s : ShadowStack) : Except Fault (Activation × ShadowStack) :=
  match s.below with
  | [] => .error .sentinelPopped
  | caller :: rest => .ok (s.top, ⟨caller, rest⟩)

def map (f : Activation → Activation) (s : ShadowStack) : ShadowStack :=
  ⟨f s.top, s.below.map f⟩

def modify (s : ShadowStack) (depth : Nat) (f : Activation → Activation) : ShadowStack :=
  if depth = s.depth then { s with top := f s.top }
  else if depth < s.depth then { s with below := s.below.modify (s.depth - 1 - depth) f }
  else s

end ShadowStack

end Overrun
