import Offload.Json.Basic
import Offload.Json.Utf8
import Offload.Number.Decimal

namespace Offload.Json

open Number

/-- The text of a float from its digits and the place of its point: positional from a ten-thousandth
up to fifteen places before the point, else with an exponent of at least two digits. -/
def placeDigits (digits : Bytes) (place : Int) : Bytes :=
  let count : Int := digits.length
  if 0 < place ∧ place ≤ 15 then
    if count ≤ place then
      digits ++ List.replicate (place - count).toNat 48 ++ utf8 ".0"
    else digits.take place.toNat ++ utf8 "." ++ digits.drop place.toNat
  else if -4 < place ∧ place ≤ 0 then
    utf8 "0." ++ List.replicate (-place).toNat 48 ++ digits
  else
    let exponent := place - 1
    let size := Bytes.decimal exponent.natAbs
    digits.take 1 ++ (if 1 < digits.length then utf8 "." ++ digits.drop 1 else []) ++ utf8 "e"
      ++ utf8 (if exponent < 0 then "-" else "+")
      ++ (if size.length < 2 then 48 :: size else size)

/-- The text of a float. What is not finite is written as `null`. -/
def floatText (x : Double) : Bytes :=
  if x.isFinite then
    let sign := if x.isNegative then utf8 "-" else []
    if x.magnitude = 0 then sign ++ utf8 "0.0"
    else
      let d := Decimal.shortest x.magnitude
      let digits := Bytes.decimal d.digits
      sign ++ placeDigits digits (digits.length + d.exponent)
  else utf8 "null"

def escape (b : UInt8) : Bytes :=
  if b = 0x22 then [0x5C, 0x22]
  else if b = 0x5C then [0x5C, 0x5C]
  else if 0x20 ≤ b then [b]
  else if b = 0x08 then utf8 "\\b"
  else if b = 0x0C then utf8 "\\f"
  else if b = 0x0A then utf8 "\\n"
  else if b = 0x0D then utf8 "\\r"
  else if b = 0x09 then utf8 "\\t"
  else utf8 "\\u00" ++ Bytes.hexPair b

def quoted (text : Bytes) : Bytes := utf8 "\"" ++ text.flatMap escape ++ utf8 "\""

inductive Layout
  | compact
  /-- Each part on a line of its own, each level indented by so many blanks. -/
  | indented (step : Nat)
  deriving DecidableEq, Repr

namespace Layout

def lineBreak (layout : Layout) (depth : Nat) : Bytes :=
  match layout with
  | compact => []
  | indented step => 10 :: List.replicate (step * depth) 32

def colon : Layout → Bytes
  | compact => utf8 ":"
  | indented _ => utf8 ": "

end Layout

mutual

def write (layout : Layout) (depth : Nat) : Json → Bytes
  | null => utf8 "null"
  | bool true => utf8 "true"
  | bool false => utf8 "false"
  | int value => Bytes.decimalInt value
  | float value => floatText value
  | string text => quoted text
  | array [] => utf8 "[]"
  | array (item :: items) =>
    utf8 "[" ++ layout.lineBreak (depth + 1) ++ write layout (depth + 1) item
      ++ writeItems layout (depth + 1) items ++ layout.lineBreak depth ++ utf8 "]"
  | object [] => utf8 "\x7b\x7d"
  | object ((key, value) :: members) =>
    utf8 "\x7b" ++ layout.lineBreak (depth + 1) ++ quoted key ++ layout.colon
      ++ write layout (depth + 1) value ++ writeMembers layout (depth + 1) members
      ++ layout.lineBreak depth ++ utf8 "\x7d"

def writeItems (layout : Layout) (depth : Nat) : List Json → Bytes
  | [] => []
  | item :: items =>
    utf8 "," ++ layout.lineBreak depth ++ write layout depth item ++ writeItems layout depth items

def writeMembers (layout : Layout) (depth : Nat) : List (Bytes × Json) → Bytes
  | [] => []
  | (key, value) :: members =>
    utf8 "," ++ layout.lineBreak depth ++ quoted key ++ layout.colon ++ write layout depth value
      ++ writeMembers layout depth members

end

mutual

/-- The fault of the first string, in the order of writing, that is not UTF-8. -/
def textFault? : Json → Option Fault
  | string text => Utf8.fault? text
  | array items => itemsFault? items
  | object members => membersFault? members
  | _ => none

def itemsFault? : List Json → Option Fault
  | [] => none
  | item :: items => (textFault? item).or (itemsFault? items)

def membersFault? : List (Bytes × Json) → Option Fault
  | [] => none
  | (key, value) :: members =>
    (Utf8.fault? key).or ((textFault? value).or (membersFault? members))

end

/-- The text of a value, unless one of its strings is not UTF-8. -/
def dump (layout : Layout) (json : Json) : Except Fault Bytes :=
  match json.textFault? with
  | some fault => .error fault
  | none => .ok (json.write layout 0)

end Offload.Json
