import Offload.Link.Loop

namespace Offload

inductive Phase
  | disconnected | connecting | connected
  deriving DecidableEq, Repr

namespace Phase

def name : Phase → Bytes
  | disconnected => utf8 "disconnected"
  | connecting => utf8 "connecting"
  | connected => utf8 "connected"

def ofCode? : Int → Option Phase
  | 0 => some disconnected
  | 1 => some connecting
  | 2 => some connected
  | _ => none

def codeName (code : Int) : Bytes := ((ofCode? code).map name).getD (utf8 "unknown")

end Phase

/-- How long a link waits, in milliseconds. -/
structure Limits where
  connect : Int := 5000
  start : Int := 100
  join : Int := 2000
  deriving DecidableEq, Repr

structure Link where
  env : Environment := {}
  limits : Limits := {}
  host : Bytes := []
  port : UInt16 := 0
  phase : Phase := .disconnected
  /-- The loop of the connection, or of the attempt to connect. -/
  live : Option Loop := none
  /-- Loops that did not stop in time. They go on without the link. -/
  detached : List Loop := []
  /-- How many calls have been handed to a loop. They are numbered from one on, over all
  connections. -/
  dispatched : Nat := 0

namespace Link

def nameEndpoint (host : Bytes) (port : UInt16) : Bytes :=
  host ++ utf8 ":" ++ Bytes.decimal port.toNat

def endpoint (link : Link) : Bytes :=
  if link.host = [] then utf8 "<no endpoint>" else nameEndpoint link.host link.port

def isConnected (link : Link) : Bool :=
  link.phase = .connected && (link.live.map (·.connected)).getD false

def inFlight (link : Link) : Nat := (link.live.map (·.inFlight)).getD 0

def nodeId (link : Link) : UInt64 :=
  match link.live with
  | some loop => if loop.connected then (loop.service.map Service.nodeId).getD 0 else 0
  | none => 0

def log (link : Link) (entry : Entry) : Link := { link with env := link.env.log entry }

def logAll (link : Link) (entries : List Entry) : Link :=
  { link with env := link.env.logAll entries }

/-- The first of several loops that has a turn to take, after that turn. -/
def turnAny (env : Environment) : List Loop → Option (Environment × List Loop)
  | [] => none
  | loop :: rest =>
    match loop.turn env with
    | some (env, loop) => some (env, loop :: rest)
    | none => (turnAny env rest).map fun found => (found.1, loop :: found.2)

def turn (link : Link) : Option Link :=
  match link.live.bind (·.turn link.env) with
  | some (env, loop) => some { link with env, live := some loop }
  | none =>
    (turnAny link.env link.detached).map fun found =>
      { link with env := found.1, detached := found.2 }

def loops (link : Link) : List Loop := link.live.toList ++ link.detached

def nextDue (link : Link) : Option Nat :=
  link.loops.foldl (fun found loop => Loop.earlier found loop.nextDue) none

/-- How many turns the loops can take without anything new being posted. -/
def work (link : Link) : Nat := total Loop.work link.loops

def setClock (link : Link) (clock : Nat) : Link :=
  { link with env := { link.env with clock } }

/-- Lets the loops run until they are idle at an instant at which the condition holds, or until the
deadline. Each round takes a turn or moves the clock to the next event. -/
def driveFor (ready : Link → Bool) (deadline : Nat) : Nat → Link → Link
  | 0, link => link
  | rounds + 1, link =>
    match link.turn with
    | some link => driveFor ready deadline rounds link
    | none =>
      if ready link then link
      else
        match link.nextDue with
        | some due =>
          if due ≤ deadline then driveFor ready deadline rounds (link.setClock due)
          else link.setClock deadline
        | none => link.setClock deadline

/-- Waits for a condition until the deadline. Every move of the clock is followed by a turn, so
twice the number of possible turns bounds the rounds. -/
def drive (link : Link) (ready : Link → Bool) (deadline : Nat) : Link :=
  driveFor ready deadline (2 * link.work + 2) link

def waitFor (link : Link) (milliseconds : Int) (ready : Link → Bool) : Link :=
  link.drive ready (link.env.clock + link.env.span milliseconds)

def idle (link : Link) : Link := link.waitFor 0 fun _ => true

def sleep (link : Link) (milliseconds : Nat) : Link :=
  link.drive (fun _ => false) (link.env.clock + milliseconds)

def post (link : Link) (task : Task) : Link := { link with live := link.live.map (·.post task) }

def isStopped (link : Link) : Bool := (link.live.map (!·.alive)).getD true

def unstopped (link : Link) : Entry :=
  .warning (utf8 "Event loop thread for " ++ link.endpoint ++ utf8 " did not stop within "
    ++ Bytes.decimalInt link.limits.join ++ utf8 " ms, detaching it")

/-- Stops the live loop. One that does not stop in time is detached. -/
def stopLoop (link : Link) : Link :=
  let asked := { link with live := link.live.map Loop.askToStop }
  let waited := asked.waitFor link.limits.join isStopped
  if waited.isStopped then { waited with live := none }
  else
    { waited with
      live := none
      detached := waited.detached ++ waited.live.toList }.log link.unstopped

def disconnect (link : Link) : Link :=
  if link.live.isNone then { link with phase := .disconnected }
  else
    let logged := link.log (.info (utf8 "Disconnecting from " ++ link.endpoint))
    { logged.stopLoop with phase := .disconnected }

def verdict (link : Link) : Option (Except Failure Unit) := link.live.bind (·.verdict)

def giveUp (link : Link) (reason : Entry) : Bool × Link :=
  (false, { (link.log reason).stopLoop with phase := .disconnected })

def greeting (link : Link) : Entry :=
  let service := (link.live.bind (·.service)).getD ⟨[], 0⟩
  .info (utf8 "Connected to " ++ service.name ++ utf8 " node "
    ++ Bytes.decimal service.nodeId.toNat ++ utf8 " at " ++ link.endpoint)

/-- Makes an attempt to connect on a loop that runs. -/
def attempt (link : Link) (host : Bytes) (port : UInt16) : Bool × Link :=
  let started := { link with live := some (({ host, port } : Loop).post .connect) }
  let waited := started.waitFor link.limits.connect (·.verdict.isSome)
  match waited.verdict with
  | none =>
    waited.giveUp <| .error (utf8 "Connection to " ++ waited.endpoint ++ utf8 " timed out after "
      ++ Bytes.decimalInt link.limits.connect ++ utf8 " ms")
  | some (.ok _) => (true, { waited.log waited.greeting with phase := .connected })
  | some (.error failure) =>
    waited.giveUp <| .error (utf8 "Failed to connect to " ++ waited.endpoint ++ utf8 ": "
      ++ failure.message)

def startTime (link : Link) : Nat := link.env.timeTo link.limits.start

/-- The link once it has given up waiting for its loop to start. -/
def missed (link : Link) : Link :=
  (link.sleep link.startTime).log <|
    .error (utf8 "Event loop did not start within " ++ Bytes.decimalInt link.limits.start ++ utf8 " ms")

/-- Waits for a loop that starts too late. It stops as soon as it starts, and nothing else comes of it. -/
def missStart (link : Link) (delay : Nat) : Link :=
  let rest := delay - link.startTime
  let patience := link.missed.env.span link.limits.join
  if rest ≤ patience then link.missed.sleep rest else (link.missed.sleep patience).log link.unstopped

def opening (link : Link) (host : Bytes) (port : UInt16) : Link :=
  { link with
    env := link.env.takeStart.2.log (.info (utf8 "Connecting to " ++ endpoint { link with host, port }))
    host, port, phase := .connecting, live := none }

/-- Connects a link that has no connection. -/
def attach (link : Link) (host : Bytes) (port : UInt16) : Bool × Link :=
  let opened := link.opening host port
  match link.env.takeStart.1 with
  | .refused reason =>
    (false, { opened.log (.error (utf8 "Failed to start event loop: " ++ reason)) with
      phase := .disconnected })
  | .running delay =>
    if delay ≤ opened.startTime then (opened.sleep delay).attempt host port
    else (false, { opened.missStart delay with phase := .disconnected })

/-- Connects to an endpoint. A connection to the same endpoint is kept, one to another is ended. -/
def connect (link : Link) (host : Bytes) (port : UInt16) : Bool × Link :=
  if link.isConnected then
    if host = link.host ∧ port = link.port then (true, link)
    else link.disconnect.attach host port
  else link.attach host port

def outcome? (link : Link) (id : Nat) : Option (Except Failure Json) :=
  link.live.bind (·.outcome? id)

/-- What a call makes of its outcome: a broken promise means that the connection is closed. -/
def conclude (link : Link) : Except Failure Json → Except Failure Json
  | .error (.raised .future _) => .error (.closed link.endpoint)
  | outcome => outcome

/-- Runs an operation on the loop and waits for its outcome for the given time. A call that has no
outcome by then is cancelled. -/
def call (link : Link) (timeout : Int) (operation : Operation) : Except Failure Json × Link :=
  if (link.live.map (·.connected)).getD false then
    let id := link.dispatched + 1
    let started := { link with dispatched := id }.post (.start id operation)
    let waited := started.waitFor timeout fun l => (l.outcome? id).isSome
    match waited.outcome? id with
    | some outcome => (waited.conclude outcome, waited)
    | none =>
      let logged := waited.log <|
        .warning (utf8 "Call " ++ Bytes.decimal id ++ utf8 " to " ++ waited.endpoint
          ++ utf8 " timed out after " ++ Bytes.decimalInt timeout ++ utf8 " ms, cancelling")
      (.error (.callTimeout timeout), logged.post (.cancel id))
  else (.error (.notConnected link.endpoint), link)

/-- Calls a method of the peer with JSON parameters. Parameters that cannot be written fail before
anything else is done. -/
def invoke (link : Link) (method : Bytes) (params : Json) (timeout : Int) :
    Except Failure Json × Link :=
  match params.dump .compact with
  | .ok body => link.call timeout (Operation.ask (utf8 "/rpc/" ++ method) body)
  | .error fault => (.error (.json fault), link)

end Link

end Offload
