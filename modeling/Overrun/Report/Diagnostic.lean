import Overrun.Address.Span
import Overrun.Text.Column
import Overrun.Text.Hexadecimal
import Overrun.Thread.Id

/-! Accesses that no longer match what their instruction has learned, as they are shown to a user. -/

namespace Overrun

inductive AccessKind where
  | read
  | write
  deriving DecidableEq, Repr

namespace AccessKind

def text : AccessKind → String
  | read => "read"
  | write => "write"

instance : ToString AccessKind := ⟨text⟩

/-- Inserted code passes the size of a write as a negative number. -/
def ofSigned (size : Int64) : AccessKind × UInt64 :=
  if size < 0 then (write, 0 - size.toUInt64) else (read, size.toUInt64)

/-- The kind set against the right and the left edge of a column. -/
def padded (kind : AccessKind) : String :=
  "[" ++ Text.alignRight 7 kind.text ++ "|" ++ Text.alignLeft 7 kind.text ++ "]"

end AccessKind

/-- The return addresses of a guest call stack, innermost first. -/
def callStackText : List UInt64 → String
  | [] => ""
  | first :: rest =>
    "   at " ++ Text.hex first ++ "\n"
      ++ String.join (rest.map fun address => "   by " ++ Text.hex address ++ "\n")

structure Diagnostic where
  tid : ThreadId
  kind : AccessKind
  size : UInt64
  address : UInt64
  instruction : UInt64
  expected : String
  actual : String
  notes : List String
  callStack : List UInt64
  deriving DecidableEq, Repr

/-- Where an address lies relative to a block. -/
inductive Relation where
  | before (bytes : UInt64)
  | inside (bytes : UInt64)
  | after (bytes : UInt64)
  deriving DecidableEq, Repr

namespace Relation

/-- A block that reaches the top of the address space ends there. -/
def ofAddress (address : UInt64) (block : Span) : Relation :=
  let wrapped := block.start + block.size
  let stop := if block.start ≤ wrapped then wrapped else 0xffffffffffffffff
  if address < block.start then before (block.start - address)
  else if stop ≤ address then after (address - stop)
  else inside (address - block.start)

def text : Relation → String
  | before bytes => s!"address is {bytes} bytes before expected"
  | inside bytes => s!"address is {bytes} bytes inside expected"
  | after bytes => s!"address is {bytes} bytes after expected"

end Relation

namespace Diagnostic

def withNote (d : Diagnostic) (note : String) : Diagnostic :=
  { d with notes := d.notes ++ [note] }

/-- Notes where the address lies relative to the bytes that were expected, if any were. -/
def withRelation (d : Diagnostic) : Option Span → Diagnostic
  | none => d
  | some block => d.withNote (Relation.ofAddress d.address block).text

def summary (d : Diagnostic) : String :=
  s!"Invalid {d.kind} of size {d.size} at address " ++ Text.hex d.address
    ++ s!"; expected: {d.expected}; actual: {d.actual}"

def text (d : Diagnostic) : String :=
  s!"Invalid {d.kind} of size {d.size} in {d.tid} at " ++ Text.hex d.instruction ++ "\n"
    ++ "  address:  " ++ Text.hex d.address ++ "\n"
    ++ s!"  expected: {d.expected}\n"
    ++ s!"  actual:   {d.actual}\n"
    ++ String.join (d.notes.map fun note => s!"  note: {note}\n")
    ++ callStackText d.callStack

end Diagnostic

/-- Diagnostics in the order in which they came, and how many more there were. -/
structure Report where
  diagnostics : List Diagnostic
  dropped : Nat
  deriving DecidableEq, Repr

namespace Report

def empty : Report := ⟨[], 0⟩

instance : EmptyCollection Report := ⟨empty⟩

instance : Inhabited Report := ⟨empty⟩

def isEmpty (r : Report) : Bool :=
  r.diagnostics.isEmpty && r.dropped == 0

/-- Every diagnostic since the report was last taken, kept or not. -/
def total (r : Report) : Nat :=
  r.diagnostics.length + r.dropped

/-- Keeps a diagnostic if there is room; a limit of zero is no limit. -/
def push (r : Report) (limit : Nat) (d : Diagnostic) : Report :=
  if limit = 0 ∨ r.diagnostics.length < limit then
    { r with diagnostics := r.diagnostics ++ [d] }
  else { r with dropped := r.dropped + 1 }

def take (r : Report) : List Diagnostic × Report :=
  (r.diagnostics, empty)

def text (r : Report) : String :=
  if r.isEmpty then "no errors detected"
  else
    "\n".intercalate (r.diagnostics.map Diagnostic.text)
      ++ if r.dropped > 0 then s!"\n({r.dropped} more errors not shown)" else ""

end Report

end Overrun
