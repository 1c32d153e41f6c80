import Overrun.Learned.Invariant
import Overrun.Text.Column

/-! Counters a checker keeps from its first operation on. None of them comes to `2 ^ 64`. -/

namespace Overrun

structure Statistics where
  accesses : Nat
  ownFrame : Nat
  callerFrame : Nat
  global : Nat
  unknown : Nat
  upgraded : Nat
  mismatched : Nat
  pushed : Nat
  popped : Nat
  registered : Nat
  released : Nat
  globalsAdded : Nat
  globalsRemoved : Nat
  /-- Global invariants looked at while regions were unmapped, and those of them forgotten. -/
  preened : Nat
  changed : Nat
  queries : Nat
  misses : Nat
  deriving DecidableEq, Repr

namespace Statistics

def zero : Statistics :=
  ⟨0, 0, 0, 0, 0, 0, 0, 0, 0, 0, 0, 0, 0, 0, 0, 0, 0⟩

instance : Inhabited Statistics := ⟨zero⟩

def counters (s : Statistics) : List Nat :=
  [s.accesses, s.ownFrame, s.callerFrame, s.global, s.unknown, s.upgraded, s.mismatched, s.pushed,
    s.popped, s.registered, s.released, s.globalsAdded, s.globalsRemoved, s.preened, s.changed,
    s.queries, s.misses]

/-- The statistics with the given counters, if there are as many as there have to be. -/
def ofCounters? : List Nat → Option Statistics
  | [a, b, c, d, e, f, g, h, i, j, k, l, m, n, o, p, q] =>
    some ⟨a, b, c, d, e, f, g, h, i, j, k, l, m, n, o, p, q⟩
  | _ => none

def countKind (s : Statistics) : Invariant.Kind → Statistics
  | .unset => s
  | .unknown => { s with unknown := s.unknown + 1 }
  | .ownFrame => { s with ownFrame := s.ownFrame + 1 }
  | .callerFrame => { s with callerFrame := s.callerFrame + 1 }
  | .global => { s with global := s.global + 1 }

def countVerdict (s : Statistics) : Invariant.Verdict → Statistics
  | .learned | .confirmed => s
  | .upgraded => { s with upgraded := s.upgraded + 1 }
  | .mismatched => { s with mismatched := s.mismatched + 1 }

def line (count : Nat) (what : String) : String :=
  Text.alignRight 12 (toString count) ++ " " ++ what

def lines (s : Statistics) : List String :=
  [line s.accesses "total accesses, of which:",
    line s.ownFrame "   stack0",
    line s.callerFrame "   stackN",
    line s.global "   global",
    line s.unknown "   unknown",
    line s.upgraded "upgrades from unknown",
    line s.mismatched "invariant mismatches",
    line s.pushed s!"activations pushed, {s.popped} popped",
    line s.registered s!"stack intervals added, {s.released} removed",
    line s.globalsAdded s!"global intervals added, {s.globalsRemoved} removed",
    line s.preened s!"invariants preened, {s.changed} changed",
    line s.queries s!"query cache queries, {s.misses} misses"]

def text (s : Statistics) : String :=
  "\n".intercalate s.lines

end Statistics

end Overrun
