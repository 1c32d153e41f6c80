import Overrun.Address.IntervalMap
import Overrun.Guest.Printer
import Overrun.Report.Statistics
import Overrun.Thread.Id

/-! What an operation does beside changing the state: it asks the debug information and it writes to
the log. -/

namespace Overrun

inductive Severity where
  | warn
  | info
  | debug
  | trace
  deriving DecidableEq, Repr

namespace Severity

def text : Severity → String
  | warn => "WARN"
  | info => "INFO"
  | debug => "DEBUG"
  | trace => "TRACE"

/-- Whether a log that goes down to `least` shows records of this severity. -/
def shownDownTo (severity least : Severity) : Bool :=
  severity.ctorIdx ≤ least.ctorIdx

end Severity

inductive Event where
  /-- The debug information was asked for the blocks of an instruction. -/
  | consulted (instruction : UInt64)
  | threadCreated (parent : Option ThreadId) (child : ThreadId)
  | threadStarted (tid : ThreadId) (sp : UInt64)
  | threadExited (tid : ThreadId) (depth registered : Nat)
  | blockWraps (tid : ThreadId) (name : String) (address : UInt64)
  | blockRegistered (tid : ThreadId) (name : String) (interval : Interval) (depth : Nat)
  | activationPushed (tid : ThreadId) (depth : Nat) (sp returnAddress : UInt64)
  | activationPopped (tid : ThreadId) (depth : Nat) (creationSp sp : UInt64)
  | mismatched (tid : ThreadId) (summary : String)
  | globalOverlaps (name : String) (overlap : Overlap)
  | globalsLoaded (handle : UInt64) (added : Nat)
  | regionUnmapped (region : Span) (removed preened changed : Nat)
  | summarized (statistics : Statistics)
  | errorsDetected (count : Nat)
  | instrumented (block : Guest.SuperBlock)
  | noChecker (hook : String)
  deriving DecidableEq

structure LogRecord where
  severity : Severity
  message : String
  fields : List (String × String)
  deriving DecidableEq, Repr

def parentText : Option ThreadId → String
  | none => "None"
  | some tid => s!"Some({tid})"

def Event.record? : Event → Option LogRecord
  | consulted _ => none
  | threadCreated parent child =>
    some ⟨.debug, "thread created", [("parent", parentText parent), ("child", child.text)]⟩
  | threadStarted tid sp =>
    some ⟨.trace, "bootstrap activation", [("tid", tid.text), ("sp", toString sp)]⟩
  | threadExited tid depth registered =>
    some ⟨.debug, "thread exited",
      [("tid", tid.text), ("depth", toString depth), ("stack_intervals", toString registered)]⟩
  | blockWraps tid name address =>
    some ⟨.debug, "stack block wraps the address space",
      [("tid", tid.text), ("name", name), ("addr", toString address)]⟩
  | blockRegistered tid name interval depth =>
    some ⟨.trace, "register stack block",
      [("tid", tid.text), ("name", name), ("interval", interval.text), ("depth", toString depth)]⟩
  | activationPushed tid depth sp returnAddress =>
    some ⟨.trace, "push activation",
      [("tid", tid.text), ("depth", toString depth), ("sp", toString sp),
        ("ret_addr", toString returnAddress)]⟩
  | activationPopped tid depth creationSp sp =>
    some ⟨.trace, "pop activation",
      [("tid", tid.text), ("depth", toString depth), ("creation_sp", toString creationSp),
        ("sp_new", toString sp)]⟩
  | mismatched tid summary => some ⟨.warn, summary, [("tid", tid.text)]⟩
  | globalOverlaps name overlap =>
    some ⟨.warn, "bogus debug info: overlapping global blocks",
      [("name", name), ("overlap", overlap.message)]⟩
  | globalsLoaded handle added =>
    some ⟨.debug, "globals loaded", [("handle", toString handle), ("added", toString added)]⟩
  | regionUnmapped region removed preened changed =>
    some ⟨.debug, "region unmapped",
      [("addr", toString region.start), ("size", toString region.size),
        ("removed", toString removed), ("preened", toString preened),
        ("changed", toString changed)]⟩
  | summarized statistics => some ⟨.info, "sgcheck summary\n" ++ statistics.text, []⟩
  | errorsDetected count => some ⟨.info, "errors detected", [("errors", toString count)]⟩
  | instrumented block => some ⟨.trace, "instrumented block\n" ++ block.text, []⟩
  | noChecker hook =>
    some ⟨.warn, "hook called with no checker installed", [("hook", hook)]⟩

/-- The records of some events that a log going down to `least` shows. -/
def Event.log (least : Severity) (events : List Event) : List LogRecord :=
  (events.filterMap record?).filter (·.severity.shownDownTo least)

/-- The instructions that the debug information was asked for. -/
def Event.consultations (events : List Event) : List UInt64 :=
  events.filterMap fun
    | consulted instruction => some instruction
    | _ => none

end Overrun
