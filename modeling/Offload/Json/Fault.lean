import Offload.Bytes

namespace Offload.Json

/-- The six kinds of JSON value; integers and floats are both numbers. -/
inductive Shape
  | null | boolean | number | string | array | object
  deriving DecidableEq, Repr

def Shape.name : Shape → Bytes
  | .null => utf8 "null"
  | .boolean => utf8 "boolean"
  | .number => utf8 "number"
  | .string => utf8 "string"
  | .array => utf8 "array"
  | .object => utf8 "object"

/-- What can be wrong with a JSON text or with the value at hand. -/
inductive Fault
  /-- A required member was asked of something that is no object. -/
  | memberOf (actual : Shape)
  /-- A member with a default was asked of something that is no object. -/
  | optionalMemberOf (actual : Shape)
  | missingKey (key : Bytes)
  | wrongShape (wanted actual : Shape)
  | malformed
  | overflow (literal : Bytes)
  | invalidByte (index : Nat) (byte : UInt8)
  | incompleteText (last : UInt8)
  deriving DecidableEq, Repr

namespace Fault

/-- The text of a fault; `malformed` keeps its common beginning only. -/
def message : Fault → Bytes
  | memberOf actual =>
    utf8 "[json.exception.type_error.304] cannot use at() with " ++ actual.name
  | optionalMemberOf actual =>
    utf8 "[json.exception.type_error.306] cannot use value() with " ++ actual.name
  | missingKey key =>
    utf8 "[json.exception.out_of_range.403] key '" ++ key ++ utf8 "' not found"
  | wrongShape wanted actual =>
    utf8 "[json.exception.type_error.302] type must be " ++ wanted.name
      ++ utf8 ", but is " ++ actual.name
  | malformed => utf8 "[json.exception.parse_error"
  | overflow literal =>
    utf8 "[json.exception.out_of_range.406] number overflow parsing '" ++ literal ++ utf8 "'"
  | invalidByte index byte =>
    utf8 "[json.exception.type_error.316] invalid UTF-8 byte at index " ++ Bytes.decimal index
      ++ utf8 ": 0x" ++ Bytes.hexPairUpper byte
  | incompleteText last =>
    utf8 "[json.exception.type_error.316] incomplete UTF-8 string; last byte: 0x"
      ++ Bytes.hexPairUpper last

end Fault

end Offload.Json
