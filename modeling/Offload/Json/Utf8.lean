import Offload.Json.Fault

namespace Offload.Json.Utf8

/-- What may follow inside a character: the range of the next byte, and how many bytes of the full
continuation range come after it. -/
structure Pending where
  low : UInt8
  high : UInt8
  more : Nat
  deriving DecidableEq, Repr

abbrev State := Option Pending

/-- The state after the first byte of a character, or `none` where no character begins so. -/
def lead (b : UInt8) : Option State :=
  if b < 0x80 then some none
  else if 0xC2 ≤ b ∧ b ≤ 0xDF then some (some ⟨0x80, 0xBF, 0⟩)
  else if b = 0xE0 then some (some ⟨0xA0, 0xBF, 1⟩)
  else if b = 0xED then some (some ⟨0x80, 0x9F, 1⟩)
  else if 0xE1 ≤ b ∧ b ≤ 0xEF then some (some ⟨0x80, 0xBF, 1⟩)
  else if b = 0xF0 then some (some ⟨0x90, 0xBF, 2⟩)
  else if 0xF1 ≤ b ∧ b ≤ 0xF3 then some (some ⟨0x80, 0xBF, 2⟩)
  else if b = 0xF4 then some (some ⟨0x80, 0x8F, 2⟩)
  else none

def step (state : State) (b : UInt8) : Option State :=
  match state with
  | none => lead b
  | some p =>
    if p.low ≤ b ∧ b ≤ p.high then
      match p.more with
      | 0 => some none
      | n + 1 => some (some ⟨0x80, 0xBF, n⟩)
    else none

/-- The first fault of a text read from the given state and index; `last` is the byte before. -/
def faultFrom (state : State) (index : Nat) (last : UInt8) : Bytes → Option Fault
  | [] => if state = none then none else some (.incompleteText last)
  | b :: rest =>
    match step state b with
    | none => some (.invalidByte index b)
    | some next => faultFrom next (index + 1) b rest

def fault? (text : Bytes) : Option Fault := faultFrom none 0 0 text

def isValid (text : Bytes) : Bool := (fault? text).isNone

def encode (n : Nat) : Bytes :=
  if n < 0x80 then [n.toUInt8]
  else if n < 0x800 then [(0xC0 + n / 64).toUInt8, (0x80 + n % 64).toUInt8]
  else if n < 0x10000 then
    [(0xE0 + n / 4096).toUInt8, (0x80 + n / 64 % 64).toUInt8, (0x80 + n % 64).toUInt8]
  else
    [(0xF0 + n / 262144).toUInt8, (0x80 + n / 4096 % 64).toUInt8, (0x80 + n / 64 % 64).toUInt8,
      (0x80 + n % 64).toUInt8]

end Offload.Json.Utf8
