import Offload.Link.Operation
import Offload.Json.Printer

namespace Offload

/-- Whom something on the loop belongs to. -/
inductive Owner
  | attempt
  | call (id : Nat)
  deriving DecidableEq, Repr

structure Exchange where
  target : Bytes
  body : Bytes
  script : Script

inductive Event
  /-- The host is found, with how the peer treats the handshake; or it is not, for a reason. -/
  | resolved (finding : Except Bytes Script)
  | stage (stage : Stage) (exchange : Exchange)
  | timer (completion : Completion)

/-- An event to come, with the instant when it is due, if it ever is. -/
structure Wait where
  owner : Owner
  due : Option Nat
  event : Event

inductive Task
  | connect
  | start (id : Nat) (operation : Operation)
  | cancel (id : Nat)
  /-- Reports that what its owner waited for was aborted. -/
  | aborted (owner : Owner)
  /-- Cancels everything and then stops. -/
  | shutdown
  | stop

/-- A call that has been started. It is in flight until it has an outcome. -/
structure Call where
  handle : Handle (List Reaction)
  outcome : Option (Except Failure Json) := none

/-- A call that keeps the whole loop asleep, and the steps it has yet to take. -/
structure Sleep where
  wakes : Nat
  id : Nat
  rest : Operation

structure Loop where
  host : Bytes
  port : UInt16
  alive : Bool := true
  connected : Bool := false
  service : Option Service := none
  asleep : Option Sleep := none
  queue : List Task := []
  waits : List Wait := []
  calls : List Call := []
  attempt : Option (Handle (List Reaction)) := none
  verdict : Option (Except Failure Unit) := none

namespace Loop

def post (loop : Loop) (task : Task) : Loop := { loop with queue := loop.queue ++ [task] }

def hangUp (loop : Loop) : Loop := { loop with connected := false }

def askToStop (loop : Loop) : Loop := loop.hangUp.post .shutdown

def call? (loop : Loop) (id : Nat) : Option Call := loop.calls.find? (·.handle.id = id)

def outcome? (loop : Loop) (id : Nat) : Option (Except Failure Json) :=
  (loop.call? id).bind (·.outcome)

def pending (loop : Loop) : List Call := loop.calls.filter (·.outcome.isNone)

def inFlight (loop : Loop) : Nat := loop.pending.length

/-- Gives a call its outcome; only the first one counts. -/
def settle (loop : Loop) (id : Nat) (outcome : Except Failure Json) : Loop :=
  { loop with
    calls := loop.calls.map fun c =>
      if c.handle.id = id ∧ c.outcome.isNone then { c with outcome := some outcome } else c }

def outcomeOf (loop : Loop) (id : Nat) : Completion → Except Failure Json
  | .nodeId => .ok (.int ((loop.service.map Service.nodeId).getD 0).toNat)
  | .callId => .ok (.int id)
  | .value json => .ok json
  | .failure failure => .error failure

def settleAttempt (loop : Loop) (result : Except Failure Service) : Loop :=
  match result with
  | .ok service =>
    { loop with
      attempt := none, service := some service, connected := true, verdict := some (.ok ()) }
  | .error failure => { loop with attempt := none, verdict := some (.error failure) }

def deliver (loop : Loop) (owner : Owner) (delivery : Delivery) : Loop :=
  match owner with
  | .attempt => loop.settleAttempt (delivery.decode >>= Service.ofReply)
  | .call id => loop.settle id delivery.decode

/-- When a stage of an exchange ends, if it ever does. -/
def stageDue (clock : Nat) (stage : Stage) (script : Script) : Option Nat :=
  if script.stage = stage ∧ script.conduct = .silence then none else some (clock + script.lag stage)

def await (loop : Loop) (owner : Owner) (due : Option Nat) (event : Event) : Loop :=
  { loop with waits := loop.waits ++ [⟨owner, due, event⟩] }

/-- Enters a stage of an exchange. The request counts as sent when it begins to be written. -/
def enter (env : Environment) (loop : Loop) (owner : Owner) (stage : Stage) (exchange : Exchange) :
    Environment × Loop :=
  let env :=
    if stage = .write then env.send ⟨loop.host, exchange.target, exchange.body⟩ else env
  (env, loop.await owner (stageDue env.clock stage exchange.script) (.stage stage exchange))

def beginExchange (env : Environment) (loop : Loop) (owner : Owner) (target body : Bytes) :
    Environment × Loop :=
  let (script, env) := env.takeScript
  enter env loop owner .connect ⟨target, body, script⟩

/-- Ends whatever an owner waits for; the owner hears of it in a later turn. -/
def abort (loop : Loop) (owner : Owner) : Loop :=
  let ended := loop.waits.filter (·.owner = owner)
  { loop with
    waits := loop.waits.filter (·.owner ≠ owner)
    queue := loop.queue ++ ended.map fun _ => .aborted owner }

/-- Carries out reactions in order, up to one that fails. -/
def react (env : Environment) (loop : Loop) (owner : Owner) :
    List Reaction → Environment × Loop × Option Failure
  | [] => (env, loop, none)
  | .signal :: rest => react { env with signals := env.signals + 1 } loop owner rest
  | .abort :: rest => react env (loop.abort owner) owner rest
  | .complete completion :: rest =>
    match owner with
    | .call id => react env (loop.settle id (loop.outcomeOf id completion)) owner rest
    | .attempt => react env loop owner rest
  | .raise failure :: _ => (env, loop, some failure)

def setHandle (loop : Loop) (handle : Handle (List Reaction)) : Loop :=
  { loop with
    calls := loop.calls.map fun c => if c.handle.id = handle.id then { c with handle } else c }

/-- Registers what to do when a call is cancelled, and does it if the call has been. -/
def onCancel (env : Environment) (loop : Loop) (id : Nat) (reactions : List Reaction) :
    Environment × Loop × Option Failure :=
  match loop.call? id with
  | none => (env, loop, none)
  | some call =>
    let (handle, due) := call.handle.onCancel (some reactions)
    react env (loop.setHandle handle) (.call id) (due.getD [])

def cancelCall (env : Environment) (loop : Loop) (id : Nat) :
    Environment × Loop × Option Failure :=
  match loop.call? id with
  | none => (env, loop, none)
  | some call =>
    let (handle, due) := call.handle.cancel
    react env (loop.setHandle handle) (.call id) (due.getD [])

def cancelAttempt (env : Environment) (loop : Loop) : Environment × Loop × Option Failure :=
  match loop.attempt with
  | none => (env, loop, none)
  | some handle =>
    let (handle, due) := handle.cancel
    react env { loop with attempt := some handle } .attempt (due.getD [])

/-- Cancels calls in order, up to one whose reactions fail, and then the attempt to connect. -/
def cancelAll (env : Environment) (loop : Loop) : List Call → Environment × Loop × Option Failure
  | [] => cancelAttempt env loop
  | call :: rest =>
    match cancelCall env loop call.handle.id with
    | (env, loop, none) => cancelAll env loop rest
    | failed => failed

/-- A failure that nothing took care of ends the loop. -/
def survive : Environment × Loop × Option Failure → Environment × Loop
  | (env, loop, none) => (env, loop)
  | (env, loop, some failure) =>
    (env.log (.error (utf8 "Event loop stopped with an error: " ++ failure.message)),
      { loop with alive := false })

def perform (env : Environment) (loop : Loop) (id : Nat) : Operation → Environment × Loop
  | [] => (env, loop)
  | .complete completion :: rest =>
    perform env (loop.settle id (loop.outcomeOf id completion)) id rest
  | .raise failure :: _ => (env, loop.settle id (.error failure))
  | .sleep milliseconds :: rest =>
    (env, { loop with asleep := some ⟨env.clock + milliseconds, id, rest⟩ })
  | .onCancel reactions :: rest =>
    match onCancel env loop id reactions with
    | (env, loop, none) => perform env loop id rest
    | (env, loop, some failure) => (env, loop.settle id (.error failure))
  | .later milliseconds completion :: rest =>
    perform env
      (loop.await (.call id) (some (env.clock + milliseconds)) (.timer completion)) id rest
  | .exchange target body :: rest =>
    let (env, loop) := beginExchange env loop (.call id) target body
    perform env loop id rest

def hello : Bytes :=
  (Json.ofMembers [("client", .string Request.agent)]).write .compact 0

def beginConnect (env : Environment) (loop : Loop) : Environment × Loop :=
  let (due, finding, env) := env.lookUp
  let loop := { loop with attempt := some { id := 0, action := some [.abort] } }
  (env, loop.await .attempt due (.resolved finding))

def runTask (env : Environment) (loop : Loop) : Task → Environment × Loop
  | .connect => beginConnect env loop
  | .start id operation =>
    perform env { loop with calls := loop.calls ++ [{ handle := { id } }] } id operation
  | .cancel id => survive (cancelCall env loop id)
  | .aborted owner => (env, loop.deliver owner .aborted)
  | .shutdown =>
    match cancelAll env loop.hangUp loop.pending with
    | (env, loop, none) => (env, loop.post .stop)
    | failed => survive failed
  | .stop => (env, { loop with alive := false })

def fire (env : Environment) (loop : Loop) (owner : Owner) : Event → Environment × Loop
  | .resolved (.ok script) => enter env loop owner .connect ⟨utf8 "/rpc/bootstrap", hello, script⟩
  | .resolved (.error reason) => (env, loop.settleAttempt (.error (.unresolved loop.host reason)))
  | .timer completion =>
    match owner with
    | .call id => (env, loop.settle id (loop.outcomeOf id completion))
    | .attempt => (env, loop)
  | .stage stage exchange =>
    match decide (exchange.script.stage = stage), exchange.script.conduct with
    | true, .failure reason => (env, loop.deliver owner (.failed reason))
    | _, conduct =>
      match stage, conduct with
      | .connect, _ => enter env loop owner .write exchange
      | .write, _ => enter env loop owner .read exchange
      | .read, .answer status body => (env, loop.deliver owner (.ofAnswer status body))
      | .read, .failure reason => (env, loop.deliver owner (.failed reason))
      | .read, .silence => (env, loop)

def earlier : Option Nat → Option Nat → Option Nat
  | some a, some b => some (min a b)
  | some a, none => some a
  | none, b => b

def soonest (waits : List Wait) : Option Nat :=
  waits.foldl (fun found wait => earlier found wait.due) none

/-- The oldest wait that is due at the given instant, and the others. -/
def takeAt (due : Nat) : List Wait → Option (Wait × List Wait)
  | [] => none
  | wait :: rest =>
    if wait.due = some due then some (wait, rest)
    else (takeAt due rest).map fun found => (found.1, wait :: found.2)

def takeDue (clock : Nat) (waits : List Wait) : Option (Wait × List Wait) :=
  match soonest waits with
  | some due => if due ≤ clock then takeAt due waits else none
  | none => none

/-- The loop after its next turn at the present instant. -/
def turn (env : Environment) (loop : Loop) : Option (Environment × Loop) :=
  if loop.alive then
    match loop.asleep with
    | some sleep =>
      if sleep.wakes ≤ env.clock then
        some (perform env { loop with asleep := none } sleep.id sleep.rest)
      else none
    | none =>
      match loop.queue with
      | task :: rest => some (runTask env { loop with queue := rest } task)
      | [] =>
        match takeDue env.clock loop.waits with
        | some (wait, others) => some (fire env { loop with waits := others } wait.owner wait.event)
        | none => none
  else none

def nextDue (loop : Loop) : Option Nat :=
  if loop.alive then
    match loop.asleep with
    | some sleep => some sleep.wakes
    | none => soonest loop.waits
  else none

def eventWork : Event → Nat
  | .resolved _ => 10
  | .stage .connect _ => 6
  | .stage .write _ => 4
  | .stage .read _ => 2
  | .timer _ => 2

def taskWork : Task → Nat
  | .connect => 12
  | .start _ operation => 1 + operation.work
  | .cancel _ | .aborted _ | .stop => 1
  | .shutdown => 2

/-- How many turns a loop can take without anything new being posted to it. -/
def work (loop : Loop) : Nat :=
  total taskWork loop.queue + total (fun wait => eventWork wait.event) loop.waits
    + ((loop.asleep.map fun sleep => 1 + sleep.rest.work).getD 0)

end Loop

end Offload
