import Overrun.Address.IntervalMap
import Overrun.Thread.Id

/-! Ways in which the state of a checker can contradict itself. -/

namespace Overrun

inductive Violation where
  | stackOverlap (tid : ThreadId) (first second : Interval)
  | globalOverlap (first second : Interval)
  /-- A registered interval is not listed exactly once. -/
  | listing (tid : ThreadId) (interval : Interval) (listed : Nat)
  | wrongDepth (tid : ThreadId) (interval : Interval) (registered listed : Nat)
  | listedMissing (tid : ThreadId) (depth : Nat) (address : UInt64)
  | noSentinel (tid : ThreadId)
  | unreachable (tid : ThreadId) (depth : Nat) (instruction : UInt64)
  | staleGlobal (tid : ThreadId) (instruction : UInt64) (node : NodeId)
  deriving DecidableEq

def Violation.message : Violation → String
  | stackOverlap tid first second => s!"{tid}: stack intervals {first} and {second} overlap"
  | globalOverlap first second => s!"global intervals {first} and {second} overlap"
  | listing tid interval listed =>
    s!"{tid}: stack interval {interval} is listed by {listed} activations"
  | wrongDepth tid interval registered listed =>
    s!"{tid}: stack interval {interval} registered at depth {registered} is listed at depth {listed}"
  | listedMissing tid depth address =>
    s!"{tid}: activation at depth {depth} lists " ++ Text.hex address
      ++ ", which isn't in the stack tree"
  | noSentinel tid => s!"{tid}: bottom activation is not the sentinel"
  | unreachable tid depth instruction =>
    s!"{tid}: instruction " ++ Text.hex instruction
      ++ s!" at depth {depth} can't be found by its address"
  | staleGlobal tid instruction node =>
    s!"{tid}: instruction " ++ Text.hex instruction ++ s!" refers to removed global {node}"

end Overrun
