import Overrun.Guest.Ty
import Overrun.Text.Hexadecimal

/-! Operands are flat: a temporary or a constant. -/

namespace Overrun.Guest

/-- A temporary, numbered in the order in which its block made it. -/
structure Temp where
  index : Nat
  deriving DecidableEq, Repr

inductive Const where
  | i1 (bit : Bool)
  | i8 (value : UInt8)
  | i16 (value : UInt16)
  | i32 (value : UInt32)
  | i64 (value : UInt64)
  deriving DecidableEq, Repr

inductive Atom where
  | temp (t : Temp)
  | const (c : Const)
  deriving DecidableEq, Repr

def Temp.text (t : Temp) : String :=
  s!"t{t.index}"

instance : ToString Temp := ⟨Temp.text⟩

namespace Const

def ty : Const → Ty
  | i1 _ => .i1
  | i8 _ => .i8
  | i16 _ => .i16
  | i32 _ => .i32
  | i64 _ => .i64

/-- The low bits of `value` as a constant of type `ty`; the wide and the floating types have none. -/
def ofTy? (ty : Ty) (value : UInt64) : Option Const :=
  match ty with
  | .i1 => some (i1 (value &&& 1 != 0))
  | .i8 => some (i8 value.toUInt8)
  | .i16 => some (i16 value.toUInt16)
  | .i32 => some (i32 value.toUInt32)
  | .i64 => some (i64 value)
  | .i128 | .f32 | .f64 | .v128 => none

/-- The value, zero-extended. -/
def value : Const → UInt64
  | i1 bit => if bit then 1 else 0
  | i8 v => v.toUInt64
  | i16 v => v.toUInt64
  | i32 v => v.toUInt64
  | i64 v => v

/-- A single bit is written as a plain digit, every other constant in base sixteen. -/
def text : Const → String
  | i1 bit => (if bit then "1" else "0") ++ ":I1"
  | c => Text.hex c.value ++ ":" ++ c.ty.text

instance : ToString Const := ⟨text⟩

end Const

namespace Atom

def temp? : Atom → Option Temp
  | temp t => some t
  | const _ => none

def const? : Atom → Option Const
  | temp _ => none
  | const c => some c

def text : Atom → String
  | temp t => t.text
  | const c => c.text

instance : ToString Atom := ⟨text⟩

instance : Coe Temp Atom := ⟨temp⟩

instance : Coe Const Atom := ⟨const⟩

end Atom

end Overrun.Guest
