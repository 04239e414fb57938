import Offload.Json.Parser
import Offload.Json.Wire

namespace Offload

inductive Delivery
  /-- It was aborted on this side. -/
  | aborted
  | failed (reason : Bytes)
  | reply (status : Int) (body : Bytes)
  deriving DecidableEq, Repr

namespace Delivery

/-- The greatest length of the body of a reply. -/
def bodyLimit : Nat := 268435456

/-- How an exchange ends that the peer answers: a body that is too long is not read to its end. -/
def ofAnswer (status : Int) (body : Bytes) : Delivery :=
  if bodyLimit < body.length then .failed (utf8 "body limit exceeded") else .reply status body

def statusText (status : Int) (body : Option Json) : Bytes :=
  match body.bind (·.get? (utf8 "error")) with
  | some (.string text) => text
  | _ => utf8 "HTTP " ++ Bytes.decimalInt status

/-- The JSON value of a reply. Any status but 200 is a failure, and so is a body that is not one
JSON text. -/
def decode : Delivery → Except Failure Json
  | aborted => .error .aborted
  | failed reason => .error (.transport reason)
  | reply status body =>
    let json := (Json.parse body).toOption
    if status ≠ 200 then .error (.remote status (statusText status json))
    else
      match json with
      | some value => .ok value
      | none => .error (.remote status (utf8 "Malformed response body"))

end Delivery

structure Service where
  name : Bytes
  nodeId : UInt64
  deriving DecidableEq, Repr

def Service.ofReply (reply : Json) : Except Failure Service := do
  let name ← reply.fieldD "service" []
  let nodeId ← reply.fieldD "nodeId" 0
  if name = [] then throw .namelessService
  return { name, nodeId }

end Offload
