import Offload.Json.Wire
import Offload.Log

namespace Offload

inductive Patience
  | query
  | control
  | bulk
  /-- The given milliseconds and the margin for results on top. -/
  | result (milliseconds : UInt32)
  deriving DecidableEq, Repr

/-- A question to the node with answers of the given type. -/
structure Query (α : Type) where
  purpose : Bytes
  method : String
  params : Json := .empty
  /-- The raw bytes among the parameters, which are written as base64. -/
  blobs : List Bytes := []
  /-- Whether a failure to write them counts as a failure of the question. -/
  guarded : Bool := true
  patience : Patience
  /-- Reads a reply; a failure means that it cannot be read. -/
  read : Json → Attempt α
  failed : Failure → α

namespace Query

variable {α : Type}

def overlong (query : Query α) : Bool := query.blobs.any Base64.overlong

def succeeded (reply : Json) : Except Failure Bool := reply.fieldD "success" false

def refusal (reply : Json) : Except Failure Bytes := do
  let text : Bytes ← reply.fieldD "errorMsg" []
  return if text = [] then utf8 "request rejected by node" else text

/-- Logs why the node refused, behind the given words, and gives the reason. -/
def logRefusal (words : Bytes) (reply : Json) : Attempt Bytes := do
  let text ← Attempt.ofExcept (refusal reply)
  Attempt.log (.warning (words ++ utf8 ": " ++ text))
  return text

def readSuccess (method : String) (reply : Json) : Attempt Bool := do
  if ← Attempt.ofExcept (succeeded reply) then return true
  let _ ← logRefusal (utf8 "Node rejected " ++ utf8 method) reply
  return false

/-- Reads whether the node did what was asked, with its reason if it did not. -/
def readStatus (method : String) (reply : Json) : Attempt (Bool × Bytes) := do
  if ← Attempt.ofExcept (succeeded reply) then return (true, [])
  let text ← logRefusal (utf8 "Node rejected " ++ utf8 method) reply
  return (false, text)

def success (purpose : Bytes) (method : String) (params : Json) (patience : Patience) :
    Query Bool :=
  { purpose, method, params, patience, read := readSuccess method, failed := fun _ => false }

def status (purpose : Bytes) (method : String) (params : Json) (patience : Patience) :
    Query (Bool × Bytes) :=
  { purpose, method, params, patience
    read := readStatus method
    failed := fun failure => (false, failure.message) }

/-- A question for a member of the reply that must be there. -/
def value [Wire α] (purpose : Bytes) (method : String) (params : Json) (patience : Patience)
    (key : String) : Query (Option α) :=
  { purpose, method, params, patience
    read := fun reply => Attempt.ofExcept ((reply.field key).map some)
    failed := fun _ => none }

/-- A question for a list in the reply. All of its elements must convert. -/
def list [Wire α] (purpose : Bytes) (method : String) (params : Json) (key : String) :
    Query (List α) :=
  { purpose, method, params
    patience := .query
    read := fun reply => Attempt.ofExcept (reply.field key)
    failed := fun _ => [] }

def showNat (n : UInt32) : Bytes := Bytes.decimal n.toNat

end Query

end Offload
