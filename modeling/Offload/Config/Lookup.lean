import Offload.Log
import Offload.Json.Basic

namespace Offload.Config

def complain {α : Type} (substitute : α) (before : String) (key : Bytes) (after : String) : Logged α :=
  ⟨substitute, [.error (utf8 before ++ key ++ utf8 after)]⟩

/-- A 32-bit integer; a larger integer loses its high bits. -/
def lookupInt (json : Json) (key : Bytes) : Logged Int32 :=
  match json.get? key with
  | none => complain 0 "Key not found in JSON: " key ""
  | some (.int value) => ⟨Int32.ofInt value, []⟩
  | some _ => complain 0 "Key is not an integer: " key ""

def lookupText (json : Json) (key : Bytes) : Logged Bytes :=
  match json.get? key with
  | none => complain [] "Key not found in JSON: " key ""
  | some (.string text) => ⟨text, []⟩
  | some _ => complain [] "Key is not a string: " key ""

/-- A 16-bit unsigned integer. Integers beyond the signed 64-bit range count as negative. -/
def lookupPort (json : Json) (key : Bytes) : Logged UInt16 :=
  match json.get? key with
  | none => complain 0 "Key not found in JSON: " key ""
  | some (.int value) =>
    if value < 0 ∨ Int64.maxValue.toInt < value then
      complain 0 "Key is not an unsigned integer: " key ""
    else if 65535 < value then complain 0 "Value for key '" key "' exceeds unsigned short limit"
    else ⟨UInt16.ofInt value, []⟩
  | some _ => complain 0 "Key is not an unsigned integer: " key ""

end Offload.Config
