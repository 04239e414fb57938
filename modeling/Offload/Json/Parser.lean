import Offload.Json.Basic
import Offload.Json.Utf8

namespace Offload.Json

open Number

def isBlank (b : UInt8) : Bool := b = 0x20 || b = 0x09 || b = 0x0A || b = 0x0D

def skipBlanks (text : Bytes) : Bytes := text.dropWhile isBlank

def hexQuad? (a b c d : UInt8) : Option Nat := do
  let w ← Bytes.hexValue? a
  let x ← Bytes.hexValue? b
  let y ← Bytes.hexValue? c
  let z ← Bytes.hexValue? d
  return ((w * 16 + x) * 16 + y) * 16 + z

def unescape? (e : UInt8) : Option UInt8 :=
  if e = 0x22 ∨ e = 0x5C ∨ e = 0x2F then some e
  else if e = 0x62 then some 0x08
  else if e = 0x66 then some 0x0C
  else if e = 0x6E then some 0x0A
  else if e = 0x72 then some 0x0D
  else if e = 0x74 then some 0x09
  else none

/-- Whether a number is the first half of a pair that stands for one code point. -/
def isHighHalf (n : Nat) : Bool := 0xD800 ≤ n && n ≤ 0xDBFF

def isLowHalf (n : Nat) : Bool := 0xDC00 ≤ n && n ≤ 0xDFFF

/-- The string whose opening quote has been read, and the text behind its closing quote. The bytes
of the string are gathered backwards. -/
def readString (done : Bytes) : Bytes → Option (Bytes × Bytes)
  | [] => none
  | b :: rest =>
    if b = 0x22 then some (done.reverse, rest)
    else if b = 0x5C then
      match rest with
      | [] => none
      | e :: rest =>
        if e = 0x75 then
          match rest with
          | a :: b :: c :: d :: rest =>
            match hexQuad? a b c d with
            | none => none
            | some n =>
              if isHighHalf n then
                match rest with
                | x :: y :: a :: b :: c :: d :: rest =>
                  match hexQuad? a b c d with
                  | none => none
                  | some m =>
                    if x = 0x5C ∧ y = 0x75 ∧ isLowHalf m then
                      let point := 0x10000 + (n - 0xD800) * 0x400 + (m - 0xDC00)
                      readString ((Utf8.encode point).reverse ++ done) rest
                    else none
                | _ => none
              else if isLowHalf n then none
              else readString ((Utf8.encode n).reverse ++ done) rest
          | _ => none
        else
          match unescape? e with
          | some c => readString (c :: done) rest
          | none => none
    else if b < 0x20 then none
    else readString (b :: done) rest

def spanDigits (text : Bytes) : Bytes × Bytes := text.span Bytes.isDigit

def readWhole (text : Bytes) : Option (Bytes × Bytes) :=
  match text with
  | 0x30 :: rest => some ([0x30], rest)
  | _ =>
    match spanDigits text with
    | ([], _) => none
    | found => some found

def readFraction (text : Bytes) : Option (Bytes × Bytes) :=
  match text with
  | 0x2E :: rest =>
    match spanDigits rest with
    | ([], _) => none
    | found => some found
  | _ => some ([], text)

def readExponent (text : Bytes) : Option (Option Int × Bytes) :=
  match text with
  | mark :: rest =>
    if mark = 0x65 ∨ mark = 0x45 then
      let sign := rest.head?
      let digits := if sign = some 0x2B ∨ sign = some 0x2D then rest.drop 1 else rest
      match spanDigits digits with
      | ([], _) => none
      | (found, rest) =>
        let size : Int := Bytes.ofDigits found
        some (some (if sign = some 0x2D then -size else size), rest)
    else some (none, text)
  | [] => some (none, text)

def wholeNumber? (negative : Bool) (digits : Bytes) : Option Json :=
  let n := Bytes.ofDigits digits
  if negative then if Int64.minValue.toInt ≤ -n then some (.int (-n)) else none
  else if n < UInt64.size then some (.int n) else none

/-- The number at the front of a text. A literal without fraction and exponent is an integer as far
as it fits 64 bits; every other one is the nearest float, if that is finite. -/
def readNumber (text : Bytes) : Except Fault (Json × Bytes) :=
  let negative := text.head? = some 0x2D
  let parts := do
    let (whole, rest) ← readWhole (if negative then text.drop 1 else text)
    let (fraction, rest) ← readFraction rest
    let (exponent, rest) ← readExponent rest
    return (whole, fraction, exponent, rest)
  match parts with
  | none => .error .malformed
  | some (whole, fraction, exponent, rest) =>
    let exact := if fraction = [] ∧ exponent = none then wholeNumber? negative whole else none
    match exact with
    | some json => .ok (json, rest)
    | none =>
      let x := Double.ofDecimal negative (Bytes.ofDigits (whole ++ fraction))
        (exponent.getD 0 - fraction.length)
      if x.isFinite then .ok (.float x, rest)
      else .error (.overflow (text.take (text.length - rest.length)))

def readText (text : Bytes) : Except Fault (Bytes × Bytes) :=
  match text with
  | 0x22 :: rest =>
    match readString [] rest with
    | some (s, rest) => if Utf8.isValid s then .ok (s, rest) else .error .malformed
    | none => .error .malformed
  | _ => .error .malformed

def keywords : List (Bytes × Json) :=
  [(utf8 "null", .null), (utf8 "true", .bool true), (utf8 "false", .bool false)]

def readScalar (text : Bytes) : Except Fault (Json × Bytes) :=
  match text with
  | [] => .error .malformed
  | b :: _ =>
    if b = 0x22 then
      match readText text with
      | .ok (s, rest) => .ok (.string s, rest)
      | .error fault => .error fault
    else if b = 0x2D ∨ Bytes.isDigit b then readNumber text
    else
      match keywords.find? (fun w => w.1.isPrefixOf text) with
      | some (word, json) => .ok (json, text.drop word.length)
      | none => .error .malformed

def readKey (text : Bytes) : Except Fault (Bytes × Bytes) :=
  match readText text with
  | .ok (key, rest) =>
    match skipBlanks rest with
    | 0x3A :: rest => .ok (key, rest)
    | _ => .error .malformed
  | .error fault => .error fault

/-- An array or object whose end has not been read. -/
inductive Frame
  | array (items : List Json)
  | object (members : Fields Json) (key : Bytes)

inductive Goal
  /-- A value; the end of the array if it was just opened. -/
  | value (mayClose : Bool)
  /-- A key of the object with these members; its end if it was just opened. -/
  | key (members : Fields Json) (mayClose : Bool)
  | next (json : Json)

/-- Reads on until the value at the bottom of the stack is complete. Each step takes at least one
byte, so a number of steps above the length of the text is enough. -/
def readOn : Nat → Goal → List Frame → Bytes → Except Fault (Json × Bytes)
  | 0, _, _, _ => .error .malformed
  | _ + 1, .next json, [], text => .ok (json, text)
  | steps + 1, .next json, .array items :: stack, text =>
    match skipBlanks text with
    | 0x2C :: rest => readOn steps (.value false) (.array (json :: items) :: stack) rest
    | 0x5D :: rest => readOn steps (.next (.array (json :: items).reverse)) stack rest
    | _ => .error .malformed
  | steps + 1, .next json, .object members key :: stack, text =>
    match skipBlanks text with
    | 0x2C :: rest => readOn steps (.key (members.insert key json) false) stack rest
    | 0x7D :: rest => readOn steps (.next (.object (members.insert key json))) stack rest
    | _ => .error .malformed
  | steps + 1, .key members mayClose, stack, text =>
    let text := skipBlanks text
    if mayClose && text.head? = some 0x7D then
      readOn steps (.next (.object members)) stack (text.drop 1)
    else
      match readKey text with
      | .ok (key, rest) => readOn steps (.value false) (.object members key :: stack) rest
      | .error fault => .error fault
  | steps + 1, .value mayClose, stack, text =>
    match skipBlanks text with
    | 0x5B :: rest => readOn steps (.value true) (.array [] :: stack) rest
    | 0x7B :: rest => readOn steps (.key [] true) stack rest
    | text =>
      match mayClose && text.head? = some 0x5D, stack with
      | true, _ :: stack => readOn steps (.next (.array [])) stack (text.drop 1)
      | _, stack =>
        match readScalar text with
        | .ok (json, rest) => readOn steps (.next json) stack rest
        | .error fault => .error fault

def skipMark (text : Bytes) : Bytes :=
  if [0xEF, 0xBB, 0xBF].isPrefixOf text then text.drop 3 else text

def read (text : Bytes) : Except Fault (Json × Bytes) :=
  let text := skipMark text
  readOn (text.length + 1) (.value false) [] text

/-- Whether nothing more is to be read. A zero byte between tokens ends a text, whatever stands
behind it. -/
def isAtEnd (text : Bytes) : Bool :=
  match skipBlanks text with
  | [] => true
  | b :: _ => b = 0

def parse (text : Bytes) : Except Fault Json :=
  match read text with
  | .error fault => .error fault
  | .ok (json, rest) => if isAtEnd rest then .ok json else .error .malformed

end Offload.Json
