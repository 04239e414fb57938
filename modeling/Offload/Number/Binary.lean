import Offload.Bytes

namespace Offload.Number

/-- A binary interchange format. -/
structure Format where
  precision : Nat
  /-- The least positive value is two to the power of minus this number. -/
  scale : Nat
  topField : Nat
  deriving DecidableEq, Repr

namespace Format

def double : Format := ⟨53, 1074, 2047⟩

def single : Format := ⟨24, 149, 255⟩

def hidden (format : Format) : Nat := Nat.pow 2 (format.precision - 1)

def infinity (format : Format) : Nat := format.topField * format.hidden

def signWeight (format : Format) : Nat := (format.topField + 1) * format.hidden

end Format

/-- The integer nearest to a quotient; of two at the same distance the even one. -/
def roundDiv (num den : Nat) : Nat :=
  if 2 * (num % den) < den ∨ 2 * (num % den) = den ∧ num / den % 2 = 0 then num / den
  else num / den + 1

namespace Format

/-- The bits of the magnitude nearest to a quotient. From the middle between the greatest finite
magnitude and the next power of two on, that is infinity. -/
def ofRatio (format : Format) (num den : Nat) : Nat :=
  let units := num * Nat.pow 2 format.scale
  let shift := (units / den).log2 + 1 - format.precision
  min (roundDiv units (den * Nat.pow 2 shift) + shift * format.hidden) format.infinity

def units (format : Format) (bits : Nat) : Nat :=
  if bits < format.hidden then bits
  else (format.hidden + bits % format.hidden) * Nat.pow 2 (bits / format.hidden - 1)

/-- The bits of the magnitude nearest to `digits` times ten to the given power. Powers far outside
the range are settled without computing them. -/
def ofDecimal (format : Format) (digits : Nat) (exponent : Int) : Nat :=
  if digits = 0 then 0
  else if 400 < exponent then format.infinity
  else if (digits.log2 / 3 + 1 : Nat) + exponent < -400 then 0
  else if 0 ≤ exponent then format.ofRatio (digits * Nat.pow 10 exponent.toNat) 1
  else format.ofRatio digits (Nat.pow 10 (-exponent).toNat)

end Format

structure Double where
  bits : UInt64
  deriving DecidableEq, Repr

structure Single where
  bits : UInt32
  deriving DecidableEq, Repr, Inhabited

namespace Double

def ofParts (negative : Bool) (magnitude : Nat) : Double :=
  ⟨(magnitude + if negative then Format.double.signWeight else 0).toUInt64⟩

def isNegative (x : Double) : Bool := Format.double.signWeight ≤ x.bits.toNat

def magnitude (x : Double) : Nat := x.bits.toNat % Format.double.signWeight

def isFinite (x : Double) : Bool := x.magnitude < Format.double.infinity

def ofInt (i : Int) : Double := ofParts (i < 0) (Format.double.ofRatio i.natAbs 1)

def ofDecimal (negative : Bool) (digits : Nat) (exponent : Int) : Double :=
  ofParts negative (Format.double.ofDecimal digits exponent)

def truncate (x : Double) : Int :=
  let whole := Format.double.units x.magnitude / Nat.pow 2 Format.double.scale
  if x.isNegative then -(whole : Int) else whole

end Double

namespace Single

def ofParts (negative : Bool) (magnitude : Nat) : Single :=
  ⟨(magnitude + if negative then Format.single.signWeight else 0).toUInt32⟩

def isNegative (x : Single) : Bool := Format.single.signWeight ≤ x.bits.toNat

def magnitude (x : Single) : Nat := x.bits.toNat % Format.single.signWeight

def ofInt (i : Int) : Single := ofParts (i < 0) (Format.single.ofRatio i.natAbs 1)

/-- The same number in the wider format; the payload of a NaN keeps its leading bits. -/
def toDouble (x : Single) : Double :=
  Double.ofParts x.isNegative <|
    if x.magnitude < Format.single.infinity then
      Format.double.ofRatio (Format.single.units x.magnitude) (Nat.pow 2 Format.single.scale)
    else
      Format.double.infinity + (x.magnitude - Format.single.infinity) * Nat.pow 2 29

end Single

/-- The number of the narrower format nearest to a number. The payload of a NaN is cut, and one
that would vanish leaves the quiet bit. -/
def Double.toSingle (x : Double) : Single :=
  Single.ofParts x.isNegative <|
    if x.magnitude < Format.double.infinity then
      Format.single.ofRatio (Format.double.units x.magnitude) (Nat.pow 2 Format.double.scale)
    else if x.magnitude = Format.double.infinity then Format.single.infinity
    else
      let payload := (x.magnitude - Format.double.infinity) / Nat.pow 2 29
      Format.single.infinity + if payload = 0 then Nat.pow 2 22 else payload

end Offload.Number
