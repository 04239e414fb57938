import Offload.Job.Definition
import Offload.Job.Identity
import Offload.Json.Wire

namespace Offload

structure Options where
  splitStrategy : Bytes := utf8 "fixed_size"
  minChunkSize : UInt64 := 65536
  maxChunkSize : UInt64 := 1048576
  verificationMode : Bytes := utf8 "hash"
  timeoutSeconds : UInt32 := 300
  retryCount : UInt32 := 3
  priority : UInt32 := 5
  redundancy : UInt32 := 1
  deriving DecidableEq, Repr

structure Manifest where
  id : Bytes := []
  program : Bytes := []
  input : Bytes := []
  options : Options
  metadata : Fields Json := []

namespace Manifest

/-- Stands in place of a compiled module and asks the node for its built-in functions. -/
def builtinMark : Bytes := utf8 "PANGEA_NATIVE_JOB_V1"

def toJson (manifest : Manifest) : Json := .ofMembers
  [("jobId", Wire.encode manifest.id),
   ("wasmModule", Wire.blob manifest.program),
   ("inputData", Wire.blob manifest.input),
   ("splitStrategy", Wire.encode manifest.options.splitStrategy),
   ("minChunkSize", Wire.encode manifest.options.minChunkSize),
   ("maxChunkSize", Wire.encode manifest.options.maxChunkSize),
   ("verificationMode", Wire.encode manifest.options.verificationMode),
   ("timeoutSecs", Wire.encode manifest.options.timeoutSeconds),
   ("retryCount", Wire.encode manifest.options.retryCount),
   ("priority", Wire.encode manifest.options.priority),
   ("redundancy", Wire.encode manifest.options.redundancy),
   ("metadata", .object manifest.metadata)]

/-- The members that a manifest must have, in the order in which their absence is noticed. -/
def required : List String :=
  ["jobId", "splitStrategy", "minChunkSize", "maxChunkSize", "verificationMode", "timeoutSecs",
   "retryCount", "priority", "redundancy"]

def metadataOf (json : Json) : Fields Json :=
  match json.get? (utf8 "metadata") with
  | some (.object members) => members
  | _ => []

def readMembers (json : Json) : Except Failure Manifest := do
  let id ← json.field "jobId"
  let program ← json.blobD "wasmModule"
  let input ← json.blobD "inputData"
  let splitStrategy ← json.field "splitStrategy"
  let minChunkSize ← json.field "minChunkSize"
  let maxChunkSize ← json.field "maxChunkSize"
  let verificationMode ← json.field "verificationMode"
  let timeoutSeconds ← json.field "timeoutSecs"
  let retryCount ← json.field "retryCount"
  let priority ← json.field "priority"
  let redundancy ← json.field "redundancy"
  return {
    id, program, input
    options := { splitStrategy, minChunkSize, maxChunkSize, verificationMode, timeoutSeconds,
                 retryCount, priority, redundancy }
    metadata := metadataOf json }

def ofJson (json : Json) : Except Failure Manifest :=
  match required.find? (fun key => !json.has (utf8 key)) with
  | some key => .error (.manifestLacks (utf8 key))
  | none =>
    match readMembers json with
    | .error (.json fault) => .error (.manifestMalformed fault)
    | result => result

end Manifest

/-- The manifest of a job. Bounds in the wrong order and unknown strategies are refused before
anything goes on the wire. -/
def Definition.toManifest (definition : Definition) (input : Bytes) (options : Options) :
    Except Failure Manifest := do
  if options.maxChunkSize < options.minChunkSize then throw .jobBoundsReversed
  let _ ← Strategy.ofName options.splitStrategy
  return {
    id := Identity.make definition.name input
    program := Manifest.builtinMark
    input
    options
    metadata := definition.metadata }

end Offload
