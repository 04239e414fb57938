import Mathlib.Logic.Relation
import Offload.Proofs.Link.Exchange
import Offload.Proofs.Link.Opening

namespace Offload

namespace Loop

variable {loop after : Loop} {env env' : Environment} {host : Bytes}

def Unused (host : Bytes) (loop : Loop) : Prop :=
  loop.alive = true ∧ loop.asleep = none ∧ loop.calls = [] ∧ loop.host = host

theorem Unused.mild (hunused : loop.Unused host) : loop.Mild := by
  obtain ⟨_, _, hcalls, _⟩ := hunused
  intro id call hcall
  rw [call?, hcalls] at hcall
  cases hcall

/-- The attempt to connect that a loop makes: it waits for its turn, for the host to be resolved or for
the handshake, or it is over. -/
inductive Greeting (host : Bytes) : Loop → Prop
  | posted (loop : Loop) (hunused : loop.Unused host) (hqueue : loop.queue = [.connect])
    (hwaits : loop.waits = []) (hattempt : loop.attempt = none) (hverdict : loop.verdict = none) :
    Greeting host loop
  | resolving (loop : Loop) (due : Option Nat) (finding : Except Bytes Script)
    (hunused : loop.Unused host) (hqueue : loop.queue = [])
    (hwaits : loop.waits = [⟨.attempt, due, .resolved finding⟩])
    (hattempt : loop.attempt = some { id := 0, action := some [.abort] })
    (hverdict : loop.verdict = none) : Greeting host loop
  | underway (loop : Loop) (clock : Nat) (stage : Stage) (exchange : Exchange)
    (hunused : loop.Unused host) (hqueue : loop.queue = [])
    (hreaches : exchange.script.reaches stage = true)
    (hwaits : loop.waits =
      [⟨.attempt, stageDue clock stage exchange.script, .stage stage exchange⟩])
    (hattempt : loop.attempt = some { id := 0, action := some [.abort] })
    (hverdict : loop.verdict = none) : Greeting host loop
  | refused (loop : Loop) (failure : Failure) (hunused : loop.Unused host) (hqueue : loop.queue = [])
    (hwaits : loop.waits = []) (hattempt : loop.attempt = none)
    (hverdict : loop.verdict = some (.error failure)) : Greeting host loop
  | welcomed (loop : Loop) (hunused : loop.Unused host) (hqueue : loop.queue = [])
    (hwaits : loop.waits = []) (hattempt : loop.attempt = none) (hconnected : loop.connected = true)
    (hverdict : loop.verdict = some (.ok ())) : Greeting host loop

theorem Greeting.unused (hgreeting : Greeting host loop) : loop.Unused host := by
  cases hgreeting <;> assumption

theorem Greeting.yielding (hgreeting : Greeting host loop) : loop.Yielding := by
  have hunused := hgreeting.unused
  refine ⟨hunused.2.1, hunused.mild, ?_⟩
  intro handle hhandle
  cases hgreeting with
  | resolving _ _ _ _ _ hattempt | underway _ _ _ _ _ _ _ hattempt =>
    rw [hattempt] at hhandle
    cases hhandle
    exact .inr rfl
  | posted _ _ _ hattempt | refused _ _ _ _ hattempt | welcomed _ _ _ hattempt =>
    rw [hattempt] at hhandle
    cases hhandle

theorem Greeting.noStart (hgreeting : Greeting host loop) (id : Nat) (operation : Operation) :
    Task.start id operation ∉ loop.queue := by
  cases hgreeting <;> simp [*]

theorem Greeting.deliver (hunused : loop.Unused host) (hqueue : loop.queue = [])
    (hwaits : loop.waits = []) (delivery : Delivery) :
    Greeting host (loop.deliver .attempt delivery) := by
  rw [Loop.deliver]
  cases hresult : delivery.decode >>= Service.ofReply with
  | ok service => exact .welcomed _ hunused hqueue hwaits rfl rfl rfl
  | error failure => exact .refused _ failure hunused hqueue hwaits rfl rfl

theorem Greeting.enter {stage : Stage} {exchange : Exchange} (hunused : loop.Unused host)
    (hqueue : loop.queue = []) (hwaits : loop.waits = [])
    (hattempt : loop.attempt = some { id := 0, action := some [.abort] })
    (hverdict : loop.verdict = none) (hreaches : exchange.script.reaches stage = true)
    (henter : enter env loop .attempt stage exchange = (env', after)) : Greeting host after := by
  rw [Loop.enter, Prod.mk.injEq] at henter
  obtain ⟨henv, rfl⟩ := henter
  rw [henv]
  refine .underway _ env'.clock stage exchange hunused hqueue hreaches ?_ hattempt hverdict
  rw [Loop.await, hwaits]
  rfl

theorem Greeting.beginConnect (hunused : loop.Unused host) (hqueue : loop.queue = [])
    (hwaits : loop.waits = []) (hverdict : loop.verdict = none)
    (hbegin : beginConnect env loop = (env', after)) : Greeting host after := by
  obtain ⟨_, rfl⟩ := Prod.mk.inj hbegin
  refine .resolving _ env.lookUp.1 env.lookUp.2.1 hunused hqueue ?_ rfl hverdict
  rw [Loop.await, hwaits]
  rfl

/-- Whatever the loop does next, its attempt to connect stays on its way. -/
theorem Greeting.turn (hgreeting : Greeting host loop)
    (hturn : loop.turn env = some (env', after)) : Greeting host after := by
  have hunused := hgreeting.unused
  have ⟨halive, hawake, _, _⟩ := hunused
  cases hgreeting with
  | posted _ hqueue hwaits hattempt hverdict =>
    rw [turn_of_task halive hawake hqueue, runTask, Option.some.injEq] at hturn
    have hnew : Unused host { loop with queue := [] } := hunused
    exact Greeting.beginConnect hnew rfl hwaits hverdict hturn
  | resolving due finding _ hqueue hwaits hattempt hverdict =>
    rw [turn_of_no_task halive hawake hqueue, hwaits] at hturn
    obtain ⟨⟨wait, others⟩, htake, hfire⟩ := Option.map_eq_some_iff.mp hturn
    obtain ⟨rfl, rfl, _⟩ := takeDue_singleton htake
    have hnew : Unused host { loop with waits := [] } := hunused
    cases finding with
    | ok script => exact @Greeting.enter _ _ _ _ _ .connect _ hnew hqueue rfl hattempt hverdict rfl hfire
    | error reason =>
      cases hfire
      exact .refused _ _ hnew hqueue rfl rfl rfl
  | underway clock stage exchange _ hqueue hreaches hwaits hattempt hverdict =>
    rw [turn_of_no_task halive hawake hqueue, hwaits] at hturn
    obtain ⟨⟨wait, others⟩, htake, hfire⟩ := Option.map_eq_some_iff.mp hturn
    obtain ⟨rfl, rfl, due, hdue, _⟩ := takeDue_singleton htake
    have hnew : Unused host { loop with waits := [] } := hunused
    rcases fire_stage hreaches (stageDue_eq_some.mp hdue).1 env { loop with waits := [] } .attempt with
      ⟨delivery, _, _, hdeliver⟩ | ⟨next, _, hgoes, _, henter⟩
    · obtain ⟨_, rfl⟩ := Prod.mk.inj (hdeliver.symm.trans hfire)
      exact Greeting.deliver hnew hqueue rfl delivery
    · exact Greeting.enter hnew hqueue rfl hattempt hverdict hgoes (henter.symm.trans hfire)
  | refused _ _ hqueue hwaits | welcomed _ hqueue hwaits =>
    rw [turn_of_no_task halive hawake hqueue, hwaits] at hturn
    cases hturn

theorem Greeting.welcome {last : Nat} (hgreeting : Greeting host loop)
    (hverdict : loop.verdict = some (.ok ())) :
    loop.Serving last [] [] ∧ loop.host = host ∧ ∀ id, loop.call? id = none := by
  have ⟨halive, hawake, hcalls, hhost⟩ := hgreeting.unused
  have hmild := hgreeting.unused.mild
  cases hgreeting with
  | posted _ _ _ _ hother | resolving _ _ _ _ _ _ hother | underway _ _ _ _ _ _ _ _ hother
  | refused _ _ _ _ _ hother =>
    rw [hother] at hverdict
    cases hverdict
  | welcomed _ hqueue hwaits hattempt hconnected _ =>
    refine ⟨⟨halive, hawake, hconnected, hattempt, hmild, ?_, ?_, ?_⟩, hhost, ?_⟩
    · rw [hqueue]
      rfl
    · rw [hwaits]
      rfl
    · rw [hwaits]
      simp
    · intro id
      rw [call?, hcalls]
      rfl

end Loop

namespace Link

variable {link : Link}

/-- Where a link is between two operations. -/
inductive Steady : Link → Prop
  | apart (link : Link) (hlive : link.live = none) (hphase : link.phase = .disconnected)
    (halone : link.detached = []) : Steady link
  | joined (link : Link) (loop : Loop) (hlive : link.live = some loop)
    (hphase : link.phase = .connected) (halone : link.detached = []) (hhost : loop.host = link.host)
    (hserving : loop.Serving link.dispatched [] [])
    (hfresh : ∀ id, link.dispatched < id → loop.call? id = none) : Steady link

theorem Steady.detached (hsteady : link.Steady) : link.detached = [] := by
  cases hsteady with
  | apart _ _ halone => exact halone
  | joined _ _ _ halone _ _ _ => exact halone

theorem Steady.env (hsteady : link.Steady) (env : Environment) : Steady { link with env } := by
  cases hsteady with
  | apart hlive hphase halone => exact .apart _ hlive hphase halone
  | joined loop hlive hphase halone hhost hserving hfresh =>
    exact .joined _ loop hlive hphase halone hhost hserving hfresh

theorem Steady.isConnected_eq (hsteady : link.Steady) : link.isConnected = link.live.isSome := by
  cases hsteady with
  | apart hlive hphase halone => simp [isConnected, hlive, hphase]
  | joined loop hlive hphase halone hhost hserving hfresh =>
    simp [isConnected, hlive, hphase, hserving.connected]

/-- A loop that serves calls only tidies up while time passes. -/
theorem drive_of_serving {loop : Loop} (hlive : link.live = some loop) (halone : link.detached = [])
    (hserving : loop.Serving link.dispatched [] [])
    (hfresh : ∀ id, link.dispatched < id → loop.call? id = none) (ready : Link → Bool)
    (deadline : Nat) :
    ∃ clock after, link.drive ready deadline = link.running { link.env with clock } after ∧
      after.host = loop.host ∧ after.Serving link.dispatched [] [] ∧
      ∀ id, link.dispatched < id → after.call? id = none := by
  let holds (env : Environment) (now : Loop) : Prop := env = link.env ∧ now.host = loop.host ∧
    now.Serving link.dispatched [] [] ∧ ∀ id, link.dispatched < id → now.call? id = none
  have hturn : ∀ env now env' after, holds env now → now.turn env = some (env', after) →
      holds env' after := by
    rintro env now env' after ⟨rfl, hhost, hnow, hnone⟩ hnext
    rcases hnow.turn hnext with ⟨rfl, hafter, hsame, hcalls⟩ | ⟨_, _, _, hposted, _⟩ |
        ⟨_, _, _, _, _, htake, _⟩
    · refine ⟨rfl, hsame.trans hhost, hafter, fun id hlater => ?_⟩
      rw [hcalls id hlater]
      exact hnone id hlater
    · cases hposted
    · cases htake
  have hwake : ∀ env now due, holds env now → now.turn env = none →
      ready (link.running env now) = false → now.nextDue = some due → due ≤ deadline →
      holds { env with clock := due } now := by
    rintro env now due ⟨_, _, hnow, _⟩ hrest _ hdue _
    obtain ⟨_, _, _, _, hnext⟩ := hnow.rest hrest
    rw [hdue] at hnext
    cases hnext
  obtain ⟨env, after, ⟨rfl, hhost, hafter, hnone⟩, _, hend⟩ :=
    drive_running hturn hwake hlive halone ⟨rfl, rfl, hserving, hfresh⟩
  rcases hend with ⟨_, hdrive⟩ | ⟨_, _, hdrive⟩
  · exact ⟨link.env.clock, after, hdrive, hhost, hafter, hnone⟩
  · exact ⟨deadline, after, hdrive, hhost, hafter, hnone⟩

/-- A steady link stays steady while time passes, and nothing but time changes around it. -/
theorem Steady.drive (hsteady : link.Steady) (ready : Link → Bool) (deadline : Nat) :
    (link.drive ready deadline).Steady ∧
      ∃ clock, (link.drive ready deadline).env = { link.env with clock } := by
  cases hsteady with
  | apart hlive hphase halone =>
    obtain ⟨clock, hdrive⟩ := drive_alone hlive halone ready deadline
    rw [hdrive]
    exact ⟨.apart _ hlive hphase halone, clock, rfl⟩
  | joined loop hlive hphase halone hhost hserving hfresh =>
    obtain ⟨clock, after, hdrive, hsame, hafter, hnone⟩ :=
      drive_of_serving hlive halone hserving hfresh ready deadline
    rw [hdrive]
    exact ⟨.joined _ after rfl hphase halone (hsame.trans hhost) hafter hnone, clock, rfl⟩

theorem Steady.waitFor (hsteady : link.Steady) (milliseconds : Int) (ready : Link → Bool) :
    (link.waitFor milliseconds ready).Steady ∧
      ∃ clock, (link.waitFor milliseconds ready).env = { link.env with clock } :=
  hsteady.drive ready _

theorem Steady.sleep (hsteady : link.Steady) (milliseconds : Nat) :
    (link.sleep milliseconds).Steady ∧
      ∃ clock, (link.sleep milliseconds).env = { link.env with clock } :=
  hsteady.drive _ _

theorem steady_of_stopped {loop : Loop} (hlive : link.live = some loop) (halone : link.detached = [])
    (hyielding : loop.Yielding) (hnoStart : ∀ id operation, Task.start id operation ∉ loop.queue) :
    Steady { link.stopLoop with phase := .disconnected } := by
  obtain ⟨env, hstopped, _⟩ := stopLoop_of_yielding hlive halone hyielding hnoStart
  rw [hstopped]
  exact .apart _ rfl rfl halone

theorem Steady.disconnect_eq (hsteady : link.Steady) :
    ∃ env, link.disconnect = { link with env, live := none, phase := .disconnected } ∧
      env.clock = link.env.clock ∧ env.requests = link.env.requests := by
  unfold Link.disconnect
  cases hsteady with
  | apart hlive hphase halone =>
    refine ⟨link.env, ?_, rfl, rfl⟩
    rw [if_pos (by rw [hlive]; rfl), hlive]
  | joined loop hlive hphase halone hhost hserving hfresh =>
    have hnoStart : ∀ id operation, Task.start id operation ∉ loop.queue := by
      intro id operation hmem
      have hnone := List.filter_eq_nil_iff.mp hserving.queue _ hmem
      simp [Task.upTo] at hnone
    obtain ⟨env, hstopped, hclock, hrequests⟩ := @stopLoop_of_yielding
      (link.log (.info (utf8 "Disconnecting from " ++ link.endpoint))) loop hlive halone
      hserving.yielding hnoStart
    refine ⟨env, ?_, hclock, hrequests⟩
    rw [if_neg (by rw [hlive]; simp)]
    simp only [hstopped]
    rfl

theorem Steady.disconnect (hsteady : link.Steady) : link.disconnect.Steady := by
  obtain ⟨env, hdisconnect, _⟩ := hsteady.disconnect_eq
  rw [hdisconnect]
  exact .apart _ rfl rfl hsteady.detached

theorem giveUp_steady {host : Bytes} {loop : Loop} (hlive : link.live = some loop)
    (halone : link.detached = []) (hgreeting : loop.Greeting host) (reason : Entry) :
    (link.giveUp reason).2.Steady :=
  @steady_of_stopped (link.log reason) loop hlive halone hgreeting.yielding hgreeting.noStart

/-- An attempt to connect waits while its loop is on its way, and then it is given up, or the loop has
found the service. What the turns of such a loop keep holds at the end of the wait. -/
theorem attempt_rule {holds : Environment → Loop → Prop} (halone : link.detached = []) (host : Bytes)
    (port : UInt16)
    (hturn : ∀ env loop env' after, loop.Greeting host → holds env loop →
      loop.turn env = some (env', after) → holds env' after)
    (hclock : ∀ env loop clock, holds env loop → holds { env with clock } loop)
    (hfirst : holds link.env (({ host, port } : Loop).post .connect)) :
    ∃ (waited : Link) (loop : Loop), waited.live = some loop ∧ waited.detached = [] ∧
      waited.host = link.host ∧ loop.Greeting host ∧ holds waited.env loop ∧
      ((∃ reason, link.attempt host port = waited.giveUp reason) ∨
        loop.verdict = some (.ok ()) ∧
          link.attempt host port = (true, { waited.log waited.greeting with phase := .connected })) := by
  let first : Loop := ({ host, port } : Loop).post .connect
  let started : Link := { link with live := some first }
  let ready (now : Link) : Bool := now.verdict.isSome
  let kept (env : Environment) (loop : Loop) : Prop := loop.Greeting host ∧ holds env loop
  have hstart : kept started.env first := ⟨.posted _ ⟨rfl, rfl, rfl, rfl⟩ rfl rfl rfl rfl, hfirst⟩
  obtain ⟨env, loop, ⟨hgreeting, hholds⟩, _, hend⟩ := @drive_running started kept ready
    (started.env.clock + started.env.span link.limits.connect)
    (fun _ _ _ _ hnow hnext => ⟨hnow.1.turn hnext, hturn _ _ _ _ hnow.1 hnow.2 hnext⟩)
    (fun _ _ due hnow _ _ _ _ => ⟨hnow.1, hclock _ _ due hnow.2⟩) first rfl halone hstart
  have hwaited : ∃ env, started.waitFor link.limits.connect ready = started.running env loop ∧
      holds env loop := by
    rcases hend with ⟨_, hdrive⟩ | ⟨_, _, hdrive⟩
    · exact ⟨_, hdrive, hholds⟩
    · exact ⟨_, hdrive, hclock _ _ _ hholds⟩
  obtain ⟨env, hwaited, hholds⟩ := hwaited
  have hverdict : (started.running env loop).verdict = loop.verdict := rfl
  refine ⟨started.running env loop, loop, rfl, halone, rfl, hgreeting, hholds, ?_⟩
  simp only [attempt]
  rw [show Link.waitFor _ _ _ = started.running env loop from hwaited, hverdict]
  cases loop.verdict with
  | none => exact .inl ⟨_, rfl⟩
  | some verdict =>
    cases verdict with
    | error failure => exact .inl ⟨_, rfl⟩
    | ok _ => exact .inr ⟨rfl, rfl⟩

/-- Connecting ends with a loop that serves calls, or without a loop. -/
theorem attach_steady (halone : link.detached = []) (host : Bytes) (port : UInt16) :
    (link.attach host port).2.Steady := by
  rcases attach_launched_alone host port halone with ⟨clock, journal, starts, hattach⟩ | hattach
  · rw [hattach]
    exact .apart _ rfl rfl halone
  · obtain ⟨clock, journal, starts, hlaunched⟩ := launched_alone host port halone
    have hnone : (link.launched host port).detached = [] := by rw [hlaunched]; exact halone
    have hnamed : (link.launched host port).host = host := by rw [hlaunched]
    obtain ⟨waited, loop, hlive, hleft, hhost, hgreeting, _, hend⟩ :=
      @attempt_rule (link.launched host port) (fun _ _ => True) hnone host port
        (fun _ _ _ _ _ _ _ => trivial) (fun _ _ _ _ => trivial) trivial
    rw [hattach]
    rcases hend with ⟨reason, hattempt⟩ | ⟨hverdict, hattempt⟩
    · rw [hattempt]
      exact giveUp_steady hlive hleft hgreeting reason
    · obtain ⟨hserving, hsame, hnew⟩ := hgreeting.welcome hverdict
      rw [hattempt]
      exact .joined _ loop hlive rfl hleft (hsame.trans (hhost.trans hnamed).symm) hserving
        fun id _ => hnew id

theorem Steady.connect (hsteady : link.Steady) (host : Bytes) (port : UInt16) :
    (link.connect host port).2.Steady := by
  unfold Link.connect
  split
  · split
    · exact hsteady
    · exact attach_steady hsteady.disconnect.detached host port
  · exact attach_steady hsteady.detached host port

/-- What becomes of the invocation of a method with the given parameters. -/
def answer (link : Link) (params : Json) (timeout : Int) : Except Failure Json :=
  match params.dump .compact with
  | .error fault => .error (.json fault)
  | .ok _ =>
    if link.isConnected then link.env.takeScript.1.result (link.env.span timeout) timeout
    else .error (.notConnected link.endpoint)

theorem answer_eq_ok_iff {params reply : Json} {timeout : Int} :
    link.answer params timeout = .ok reply ↔
      link.isConnected = true ∧ (∃ body, params.dump .compact = .ok body) ∧
        link.env.takeScript.1.result (link.env.span timeout) timeout = .ok reply := by
  unfold answer
  cases params.dump .compact with
  | error fault => simp
  | ok body => cases link.isConnected <;> simp

/-- The requests sent once a method has been invoked with the given timeout, the latest first. -/
def requestsAfter (link : Link) (method : Bytes) (params : Json) (timeout : Int) : List Request :=
  match params.dump .compact with
  | .error _ => link.env.requests
  | .ok body =>
    if link.isConnected && link.env.takeScript.1.sends (link.env.span timeout) then
      ⟨link.host, utf8 "/rpc/" ++ method, body⟩ :: link.env.requests
    else link.env.requests

/-- Invoking a method gives what the peer makes of it, sends at most the one request, and leaves the
link steady. -/
theorem Steady.invoke (hsteady : link.Steady) (method : Bytes) (params : Json) (timeout : Int) :
    (link.invoke method params timeout).1 = link.answer params timeout ∧
      (link.invoke method params timeout).2.env.requests = link.requestsAfter method params timeout ∧
      (link.invoke method params timeout).2.Steady := by
  have hconnected := hsteady.isConnected_eq
  unfold Link.invoke answer requestsAfter
  cases params.dump .compact with
  | error fault => exact ⟨rfl, rfl, hsteady⟩
  | ok body =>
    simp only
    cases hsteady with
    | apart hlive hphase halone =>
      have happart : link.isConnected = false := by rw [hconnected, hlive]; rfl
      have hcall : ∀ operation,
          link.call timeout operation = (.error (.notConnected link.endpoint), link) := by
        intro operation
        rw [call, hlive]
        rfl
      rw [hcall, happart]
      exact ⟨rfl, rfl, .apart _ hlive hphase halone⟩
    | joined loop hlive hphase halone hhost hserving hfresh =>
      have hjoined : link.isConnected = true := by rw [hconnected, hlive]; rfl
      obtain ⟨env, after, hcall, hrequests, _, hsame, hafter, hnone⟩ :=
        call_ask hlive halone hserving hfresh timeout (utf8 "/rpc/" ++ method) body
      rw [hhost, Environment.exchanged_requests] at hrequests
      rw [hcall, hjoined, if_pos rfl, Bool.true_and]
      exact ⟨rfl, hrequests, .joined _ after rfl hphase halone (hsame.trans hhost) hafter hnone⟩

/-- One use of a link: a method is invoked, the loops run while the caller waits, or something is logged. -/
inductive Use : Link → Link → Prop
  | invoked (link : Link) (method : Bytes) (params : Json) (timeout : Int) :
    Use link (link.invoke method params timeout).2
  | driven (link : Link) (ready : Link → Bool) (deadline : Nat) : Use link (link.drive ready deadline)
  | noted (link : Link) (journal : Journal) :
    Use link { link with env := { link.env with journal } }

/-- Any number of uses, one after the other. -/
abbrev Used : Link → Link → Prop := Relation.ReflTransGen Use

variable {after : Link}

theorem Use.steady (huse : Use link after) (hsteady : link.Steady) : after.Steady := by
  cases huse with
  | invoked method params timeout =>
    obtain ⟨_, _, hafter⟩ := hsteady.invoke method params timeout
    exact hafter
  | driven ready deadline => exact (hsteady.drive ready deadline).1
  | noted journal => exact hsteady.env _

theorem Used.steady (hused : link.Used after) (hsteady : link.Steady) : after.Steady := by
  induction hused with
  | refl => exact hsteady
  | tail _ huse ih => exact huse.steady ih

end Link

end Offload
