/-! Base sixteen. Addresses and constants are written behind the marker `0x`, in lower case and without
leading zeros; code is read as two digits a byte. -/

namespace Overrun.Text

def hexDigits (n : Nat) : List Char :=
  '0' :: 'x' :: Nat.toDigits 16 n

def hex (word : UInt64) : String :=
  String.ofList (hexDigits word.toNat)

/-- The value of a digit in either case. -/
def hexDigit? (c : Char) : Option Nat :=
  if '0' ≤ c ∧ c ≤ '9' then some (c.toNat - '0'.toNat)
  else if 'a' ≤ c ∧ c ≤ 'f' then some (c.toNat - 'a'.toNat + 10)
  else if 'A' ≤ c ∧ c ≤ 'F' then some (c.toNat - 'A'.toNat + 10)
  else none

def ofHexDigits? (digits : List Char) : Option Nat :=
  digits.foldlM (fun n c => (hexDigit? c).map (16 * n + ·)) 0

/-- The bytes that a row of digits stands for. -/
def bytes? : List Char → Option (List UInt8)
  | [] => some []
  | [_] => none
  | a :: b :: rest => do
    let byte ← ofHexDigits? [a, b]
    return UInt8.ofNat byte :: (← bytes? rest)

end Overrun.Text
