/-! Types of the values guest code computes with. -/

namespace Overrun.Guest

inductive Ty where
  | i1
  | i8
  | i16
  | i32
  | i64
  | i128
  | f32
  | f64
  | v128
  deriving DecidableEq, Repr

inductive Endian where
  | big
  | little
  deriving DecidableEq, Repr

namespace Ty

instance : Inhabited Ty := ⟨i64⟩

def all : List Ty := [i1, i8, i16, i32, i64, i128, f32, f64, v128]

def text : Ty → String
  | i1 => "I1"
  | i8 => "I8"
  | i16 => "I16"
  | i32 => "I32"
  | i64 => "I64"
  | i128 => "I128"
  | f32 => "F32"
  | f64 => "F64"
  | v128 => "V128"

instance : ToString Ty := ⟨text⟩

/-- Bytes a value takes in memory or in the guest state; a single bit counts as one byte. -/
def size : Ty → UInt32
  | i1 | i8 => 1
  | i16 => 2
  | i32 | f32 => 4
  | i64 | f64 => 8
  | i128 | v128 => 16

def isIntegral : Ty → Bool
  | i1 | i8 | i16 | i32 | i64 | i128 => true
  | f32 | f64 | v128 => false

/-- The integral type that fills `size` bytes. -/
def integralOfSize? (size : UInt32) : Option Ty :=
  if size = 1 then some i8
  else if size = 2 then some i16
  else if size = 4 then some i32
  else if size = 8 then some i64
  else if size = 16 then some i128
  else none

/-- Types are ordered as they are listed. -/
instance : Ord Ty := ⟨fun a b => compare a.ctorIdx b.ctorIdx⟩

end Ty

def Endian.text : Endian → String
  | big => "be"
  | little => "le"

instance : ToString Endian := ⟨Endian.text⟩

end Overrun.Guest
