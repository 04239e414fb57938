import Offload.Number.Binary

namespace Offload.Number

/-- The number `digits` times ten to the power `exponent`. -/
structure Decimal where
  digits : Nat
  exponent : Int
  deriving DecidableEq, Repr

def digitCount (n : Nat) : Nat := (Bytes.decimal n).length

/-- How often a positive quotient below one must be multiplied by ten to reach one, at most the
given number of times. -/
def leadingZeros : Nat → Nat → Nat → Nat
  | 0, _, _ => 0
  | limit + 1, num, den => if den ≤ num then 0 else leadingZeros limit (num * 10) den + 1

/-- The place of the leading digit of a positive quotient: its value lies below ten to this power
and not below a tenth of that. -/
def leadingPlace (num den : Nat) : Int :=
  if den ≤ num then digitCount (num / den)
  else 1 - (leadingZeros 400 num den : Int)

namespace Decimal

/-- The number of the 64-bit format nearest to a decimal, as bits of a magnitude. -/
def read (d : Decimal) : Nat := Format.double.ofDecimal d.digits d.exponent

def trim : Nat → Decimal → Decimal
  | 0, d => d
  | n + 1, d => if d.digits % 10 = 0 then trim n ⟨d.digits / 10, d.exponent + 1⟩ else d

/-- Of the two neighbours of a quotient on the grid of a power of ten, the nearest one that reads
back as the given magnitude; at equal distance the even one. -/
def onGrid? (magnitude num den : Nat) (exponent : Int) : Option Decimal :=
  let n := if exponent < 0 then num * Nat.pow 10 (-exponent).toNat else num
  let d := if exponent < 0 then den else den * Nat.pow 10 exponent.toNat
  let near : Decimal := ⟨roundDiv n d, exponent⟩
  let far : Decimal := ⟨if near.digits = n / d then n / d + 1 else n / d, exponent⟩
  if near.read = magnitude then some near
  else if far.read = magnitude then some far
  else none

def firstOnGrids (magnitude num den : Nat) (place : Int) : Nat → Nat → Option Decimal
  | 0, _ => none
  | more + 1, digits =>
    match onGrid? magnitude num den (place - digits) with
    | some d => some (trim digits d)
    | none => firstOnGrids magnitude num den place more (digits + 1)

/-- The shortest decimal of a finite magnitude. Seventeen digits are always enough. -/
def shortest (magnitude : Nat) : Decimal :=
  if magnitude = 0 then ⟨0, 0⟩
  else
    let num := Format.double.units magnitude
    let den := Nat.pow 2 Format.double.scale
    (firstOnGrids magnitude num den (leadingPlace num den) 17 1).getD ⟨0, 0⟩

end Decimal

end Offload.Number
