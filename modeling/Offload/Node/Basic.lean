import Offload.Config.Basic
import Offload.Link.Basic
import Offload.Node.Query

namespace Offload

structure Node where
  config : Config := {}
  link : Link := {}

namespace Node

def limits (config : Config) : Limits :=
  { connect := config.connectTimeout.toInt
    join := config.joinTimeout.toInt }

def ofConfig (config : Config) (env : Environment) : Node :=
  { config, link := { env, limits := limits config } }

def connectTo (node : Node) (host : Bytes) (port : UInt16) : Bool × Node :=
  let (connected, link) := node.link.connect host port
  (connected, { node with link })

def connect (node : Node) : Bool × Node := node.connectTo node.config.host node.config.port

def disconnect (node : Node) : Node := { node with link := node.link.disconnect }

def isConnected (node : Node) : Bool := node.link.isConnected

def log (node : Node) (entry : Entry) : Node := { node with link := node.link.log entry }

def timeout (node : Node) : Patience → Int
  | .query => node.config.timeouts.query.toInt
  | .control => node.config.timeouts.control.toInt
  | .bulk => node.config.timeouts.bulk.toInt
  | .result milliseconds => milliseconds.toNat + node.config.timeouts.resultMargin.toInt

def complaint {α : Type} (query : Query α) (failure : Failure) : Entry :=
  .error (utf8 "Error " ++ query.purpose ++ utf8 ": " ++ failure.message)

def invoke {α : Type} (node : Node) (query : Query α) : Except Failure Json × Link :=
  if query.overlong then (.error .base64Overlong, node.link)
  else node.link.invoke (utf8 query.method) query.params (node.timeout query.patience)

def ask {α : Type} (node : Node) (query : Query α) : α × Node :=
  let (outcome, link) := node.invoke query
  match outcome with
  | .error failure =>
    (query.failed failure, { node with link := link.log (complaint query failure) })
  | .ok reply =>
    let reading : Logged (Except Failure α) := (query.read reply).run
    let noted := link.logAll reading.entries
    match reading.value with
    | .ok answer => (answer, { node with link := noted })
    | .error failure =>
      (query.failed failure, { node with link := noted.log (complaint query failure) })

/-- Asks a question. A failure ends it only where parameters that nobody guards cannot be written. -/
def call {α : Type} (node : Node) (query : Query α) : Except Failure α × Node :=
  if query.overlong ∧ query.guarded = false then (.error .base64Overlong, node)
  else
    let (answer, asked) := node.ask query
    (.ok answer, asked)

end Node

end Offload
