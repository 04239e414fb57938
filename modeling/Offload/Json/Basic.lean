import Offload.Fields
import Offload.Json.Fault
import Offload.Number.Binary

namespace Offload

open Number

inductive Json
  | null
  | bool (value : Bool)
  /-- A number written without fraction and exponent. -/
  | int (value : Int)
  | float (value : Double)
  | string (text : Bytes)
  | array (items : List Json)
  | object (members : List (Bytes × Json))
  deriving BEq, Repr

namespace Json

instance : Inhabited Json := ⟨null⟩

def shape : Json → Shape
  | null => .null
  | bool _ => .boolean
  | int _ | float _ => .number
  | string _ => .string
  | array _ => .array
  | object _ => .object

def empty : Json := object []

def ofMembers (members : List (String × Json)) : Json :=
  object (Fields.ofList (members.map fun m => (utf8 m.1, m.2)))

def isObject : Json → Bool
  | object _ => true
  | _ => false

def get? (json : Json) (key : Bytes) : Option Json :=
  match json with
  | object members => Fields.get? key members
  | _ => none

def has (json : Json) (key : Bytes) : Bool := (json.get? key).isSome

def member (json : Json) (key : Bytes) : Except Fault Json :=
  match json with
  | object members =>
    match Fields.get? key members with
    | some value => .ok value
    | none => .error (.missingKey key)
  | other => .error (.memberOf other.shape)

def member? (json : Json) (key : Bytes) : Except Fault (Option Json) :=
  match json with
  | object members => .ok (Fields.get? key members)
  | other => .error (.optionalMemberOf other.shape)

def toText : Json → Except Fault Bytes
  | string text => .ok text
  | other => .error (.wrongShape .string other.shape)

def toBool : Json → Except Fault Bool
  | bool value => .ok value
  | other => .error (.wrongShape .boolean other.shape)

/-- The integer of a number; a float is cut toward zero. -/
def toInteger : Json → Except Fault Int
  | int value => .ok value
  | float value => .ok value.truncate
  | other => .error (.wrongShape .number other.shape)

def toSmallInteger : Json → Except Fault Int
  | bool value => .ok (if value then 1 else 0)
  | other => other.toInteger

def toSingle : Json → Except Fault Single
  | bool value => .ok (Single.ofInt (if value then 1 else 0))
  | int value => .ok (Single.ofInt value)
  | float value => .ok value.toSingle
  | other => .error (.wrongShape .number other.shape)

def toItems : Json → Except Fault (List Json)
  | array items => .ok items
  | other => .error (.wrongShape .array other.shape)

def toMembers : Json → Except Fault (Fields Json)
  | object members => .ok members
  | other => .error (.wrongShape .object other.shape)

end Json

end Offload
