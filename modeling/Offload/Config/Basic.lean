import Offload.Config.Lookup
import Offload.Job.Manifest

namespace Offload

/-- How long a call may take, by its kind, in milliseconds. -/
structure Timeouts where
  query : Int32 := 800
  control : Int32 := 5000
  bulk : Int32 := 30000
  /-- What is added to the time that the node itself may wait for a result. -/
  resultMargin : Int32 := 2000
  deriving DecidableEq

structure ChunkSizes where
  size : UInt64 := 65536
  least : UInt64 := 65536
  greatest : UInt64 := 1048576
  deriving DecidableEq, Repr

structure Config where
  host : Bytes := utf8 "localhost"
  port : UInt16 := 8080
  logLevel : Bytes := utf8 "info"
  logFile : Bytes := []
  connectTimeout : Int32 := 5000
  joinTimeout : Int32 := 2000
  heartbeat : Int32 := 100
  timeouts : Timeouts := {}
  chunk : ChunkSizes := {}
  deriving DecidableEq

namespace Config

def optional {α : Type} (lookup : Json → Bytes → Logged α) (json : Json) (key : String)
    (default : α) : Logged α :=
  if json.has (utf8 key) then lookup json (utf8 key) else ⟨default, []⟩

/-- A 32-bit integer as a 64-bit size; a negative one fills the high bits. -/
def lookupSize (json : Json) (key : Bytes) : Logged UInt64 := do
  return UInt64.ofInt (← lookupInt json key).toInt

def group (json : Json) (key : String) : Json :=
  match json.get? (utf8 key) with
  | some (.object members) => .object members
  | _ => .empty

def readSettings (json : Json) : Logged Config := do
  let host ← optional lookupText json "host" (utf8 "localhost")
  let port ← optional lookupPort json "port" 8080
  let logLevel ← optional lookupText json "log_level" (utf8 "info")
  let logFile ← optional lookupText json "log_file" []
  let connectTimeout ← optional lookupInt json "connect_timeout_ms" 5000
  let joinTimeout ← optional lookupInt json "join_timeout_ms" 2000
  let heartbeat ← optional lookupInt json "heartbeat_ms" 100
  let timeouts := group json "timeouts"
  let query ← optional lookupInt timeouts "query_ms" 800
  let control ← optional lookupInt timeouts "control_ms" 5000
  let bulk ← optional lookupInt timeouts "bulk_ms" 30000
  let resultMargin ← optional lookupInt timeouts "result_margin_ms" 2000
  let chunk := group json "chunk"
  let size ← optional lookupSize chunk "chunk_size" 65536
  let least ← optional lookupSize chunk "min_chunk_size" 65536
  let greatest ← optional lookupSize chunk "max_chunk_size" 1048576
  return {
    host, port, logLevel, logFile, connectTimeout, joinTimeout, heartbeat
    timeouts := { query, control, bulk, resultMargin }
    chunk := { size, least, greatest } }

/-- The configuration of a JSON value. What is no object means the defaults; an endpoint without
host or port is refused. -/
def ofJson (json : Json) : Attempt Config :=
  if json.isObject then do
    let config ← ExceptT.lift (readSettings json)
    if config.host = [] ∨ config.port = 0 then throw .noEndpoint
    return config
  else do
    Attempt.log (.warning (utf8 "Client configuration is not a JSON object, using defaults"))
    return {}

def toJson (config : Config) : Json := .ofMembers
  [("host", Wire.encode config.host),
   ("port", Wire.encode config.port),
   ("log_level", Wire.encode config.logLevel),
   ("log_file", Wire.encode config.logFile),
   ("connect_timeout_ms", Wire.encode config.connectTimeout),
   ("join_timeout_ms", Wire.encode config.joinTimeout),
   ("heartbeat_ms", Wire.encode config.heartbeat),
   ("timeouts", .ofMembers
     [("query_ms", Wire.encode config.timeouts.query),
      ("control_ms", Wire.encode config.timeouts.control),
      ("bulk_ms", Wire.encode config.timeouts.bulk),
      ("result_margin_ms", Wire.encode config.timeouts.resultMargin)]),
   ("chunk", .ofMembers
     [("chunk_size", Wire.encode config.chunk.size),
      ("min_chunk_size", Wire.encode config.chunk.least),
      ("max_chunk_size", Wire.encode config.chunk.greatest)])]

def jobDefaults (config : Config) : Options :=
  { minChunkSize := config.chunk.least, maxChunkSize := config.chunk.greatest }

end Config

end Offload
