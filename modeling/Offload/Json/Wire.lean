import Offload.Base64
import Offload.Json.Basic

namespace Offload

open Number

/-- A type whose values travel as JSON. -/
class Wire (α : Type) where
  encode : α → Json
  decode : Json → Except Failure α

namespace Wire

def lift {α : Type} (result : Except Json.Fault α) : Except Failure α := result.mapError .json

instance : Wire Bytes where
  encode text := .string text
  decode json := lift json.toText

instance : Wire Bool where
  encode value := .bool value
  decode json := lift json.toBool

instance : Wire UInt64 where
  encode n := .int n.toNat
  decode json := (lift json.toInteger).map UInt64.ofInt

instance : Wire Int64 where
  encode n := .int n.toInt
  decode json := (lift json.toInteger).map Int64.ofInt

instance : Wire UInt32 where
  encode n := .int n.toNat
  decode json := (lift json.toSmallInteger).map UInt32.ofInt

instance : Wire Int32 where
  encode n := .int n.toInt
  decode json := (lift json.toSmallInteger).map Int32.ofInt

instance : Wire UInt16 where
  encode n := .int n.toNat
  decode json := (lift json.toSmallInteger).map UInt16.ofInt

instance : Wire Single where
  encode x := .float x.toDouble
  decode json := lift json.toSingle

instance (priority := low) {α : Type} [Wire α] : Wire (List α) where
  encode items := .array (items.map encode)
  decode json := do (← lift json.toItems).mapM decode

instance {α : Type} [Wire α] : Wire (SortedMap α) where
  encode map := .object (map.fields.map fun f => (f.1, encode f.2))
  decode json := do
    let entries ← (← lift json.toMembers).mapM fun m => return (m.1, ← decode m.2)
    return SortedMap.ofList entries

end Wire

namespace Json

variable {α : Type} [Wire α]

def field (json : Json) (key : String) : Except Failure α :=
  match json.member (utf8 key) with
  | .ok value => Wire.decode value
  | .error fault => .error (.json fault)

/-- The member of a record, or a default where it is absent. A member that is there must convert. -/
def fieldD (json : Json) (key : String) (default : α) : Except Failure α :=
  match json.member? (utf8 key) with
  | .ok (some value) => Wire.decode value
  | .ok none => .ok default
  | .error fault => .error (.json fault)

end Json

namespace Wire

def blob (data : Bytes) : Json := .string (Base64.text data)

end Wire

namespace Json

def blob (json : Json) (key : String) : Except Failure Bytes := json.field key >>= Base64.decode

/-- A member that holds raw bytes as base64, or no bytes where it is absent. -/
def blobD (json : Json) (key : String) : Except Failure Bytes :=
  json.fieldD key [] >>= Base64.decode

end Json

end Offload
