
namespace Offload

/-- A byte string. Its order is the lexicographic order of unsigned bytes. -/
abbrev Bytes := List UInt8

/-- The UTF-8 encoding of a literal text. -/
def utf8 (text : String) : Bytes := text.toUTF8.data.toList

theorem utf8_inj {s t : String} : utf8 s = utf8 t ↔ s = t := by
  constructor
  · intro h
    have harray : s.toUTF8.data = t.toUTF8.data := Array.toList_inj.mp h
    have hbytes : s.toUTF8 = t.toUTF8 := by
      cases hs : s.toUTF8
      cases ht : t.toUTF8
      simp_all
    exact String.toByteArray_inj.mp hbytes
  · rintro rfl
    rfl

theorem utf8_append (s t : String) : utf8 (s ++ t) = utf8 s ++ utf8 t := by
  simp [utf8]

namespace Bytes

def digit (n : Nat) : UInt8 := 48 + n.toUInt8

def isDigit (b : UInt8) : Bool := 48 ≤ b && b ≤ 57

def digitValue (b : UInt8) : Nat := b.toNat - 48

/-- Puts the decimal digits of a number, without leading zeros, in front of a text. -/
def decimalOnto (n : Nat) (tail : Bytes) : Bytes :=
  if n < 10 then digit n :: tail else decimalOnto (n / 10) (digit (n % 10) :: tail)
termination_by n

def decimal (n : Nat) : Bytes := decimalOnto n []

def decimalInt : Int → Bytes
  | .ofNat n => decimal n
  | .negSucc n => 45 :: decimal (n + 1)

def ofDigits (digits : Bytes) : Nat := digits.foldl (fun n b => 10 * n + digitValue b) 0

def hexDigit (letters : UInt8) (n : UInt8) : UInt8 := if n < 10 then 48 + n else letters + (n - 10)

def hexPair (b : UInt8) : Bytes := [hexDigit 97 (b / 16), hexDigit 97 (b % 16)]

def hexPairUpper (b : UInt8) : Bytes := [hexDigit 65 (b / 16), hexDigit 65 (b % 16)]

def hex (bytes : Bytes) : Bytes := bytes.flatMap hexPair

def hexValue? (b : UInt8) : Option Nat :=
  if 48 ≤ b && b ≤ 57 then some (b.toNat - 48)
  else if 97 ≤ b && b ≤ 102 then some (b.toNat - 87)
  else if 65 ≤ b && b ≤ 70 then some (b.toNat - 55)
  else none

end Bytes

end Offload
