import Offload.Proofs.Link.Phases

namespace Offload

def Request.handshake (host : Bytes) : Request := ⟨host, utf8 "/rpc/bootstrap", Loop.hello⟩

namespace Loop

variable {host : Bytes} {before : List Request} {loop after : Loop} {env env' : Environment}

/-- What an attempt to connect has sent: nothing so far, or the handshake. -/
inductive Knocks (host : Bytes) (before : List Request) : Environment → Loop → Prop
  | unsent {env : Environment} {loop : Loop} (hrequests : env.requests = before)
    (hahead : ∀ wait ∈ loop.waits, ∀ stage exchange, wait.event = .stage stage exchange →
      stage = .connect ∧ exchange.target = utf8 "/rpc/bootstrap" ∧ exchange.body = hello) :
    Knocks host before env loop
  | sent {env : Environment} {loop : Loop} (hrequests : env.requests = .handshake host :: before)
    (hqueue : loop.queue = [])
    (hbehind : ∀ wait ∈ loop.waits, ∃ stage exchange, wait.event = .stage stage exchange ∧
      stage ≠ .connect) : Knocks host before env loop

theorem Knocks.requests_cases (hknocks : Knocks host before env loop) :
    env.requests = before ∨ env.requests = .handshake host :: before := by
  cases hknocks with
  | unsent hrequests => exact .inl hrequests
  | sent hrequests => exact .inr hrequests

theorem Knocks.clock (hknocks : Knocks host before env loop) (clock : Nat) :
    Knocks host before { env with clock } loop := by
  cases hknocks with
  | unsent hrequests hahead => exact .unsent hrequests hahead
  | sent hrequests hqueue hbehind => exact .sent hrequests hqueue hbehind

theorem Knocks.ended (hrequests : env.requests = before ∨ env.requests = .handshake host :: before)
    (hqueue : loop.queue = []) (hwaits : loop.waits = []) : Knocks host before env loop := by
  rcases hrequests with hrequests | hrequests
  · exact .unsent hrequests (by simp [hwaits])
  · exact .sent hrequests hqueue (by simp [hwaits])

theorem Knocks.beginConnect (hrequests : env.requests = before) (hwaits : loop.waits = []) :
    Knocks host before (beginConnect env loop).1 (beginConnect env loop).2 := by
  obtain ⟨scripts, resolutions, hlooked⟩ := env.lookUp_frame
  simp only [Loop.beginConnect, hlooked]
  refine .unsent hrequests ?_
  simp [Loop.await, hwaits]

theorem deliver_attempt_frame (loop : Loop) (delivery : Delivery) :
    (loop.deliver .attempt delivery).queue = loop.queue ∧
      (loop.deliver .attempt delivery).waits = loop.waits := by
  simp only [deliver, settleAttempt]
  split
  · exact ⟨rfl, rfl⟩
  · exact ⟨rfl, rfl⟩

theorem Knocks.enter {wait : Wait} {stage next : Stage} {exchange : Exchange}
    (hknocks : Knocks host before env loop) (hwait : wait ∈ loop.waits)
    (hevent : wait.event = .stage stage exchange) (hnext : stage.next? = some next)
    (hhost : loop.host = host) (hqueue : loop.queue = [])
    (henter : enter env { loop with waits := [] } .attempt next exchange = (env', after)) :
    Knocks host before env' after := by
  obtain ⟨rfl, rfl⟩ := Prod.mk.inj henter
  cases hknocks with
  | unsent hrequests hahead =>
    obtain ⟨rfl, htarget, hbody⟩ := hahead wait hwait stage exchange hevent
    cases hnext
    refine .sent ?_ hqueue ?_
    · simp [Environment.send, Request.handshake, htarget, hbody, hhost, hrequests]
    · simp [Loop.await]
  | sent hrequests _ hbehind =>
    obtain ⟨_, _, hsame, hlate⟩ := hbehind wait hwait
    cases hevent.symm.trans hsame
    cases stage with
    | connect => exact (hlate rfl).elim
    | write =>
      cases hnext
      exact .sent hrequests hqueue (by simp [Loop.await])
    | read => cases hnext

/-- Whatever the loop does next, its attempt to connect sends the handshake at most. -/
theorem Knocks.turn (hknocks : Knocks host before env loop) (hgreeting : Greeting host loop)
    (hturn : loop.turn env = some (env', after)) : Knocks host before env' after := by
  have ⟨halive, hawake, _, hhost⟩ := hgreeting.unused
  cases hgreeting with
  | posted _ hqueue hwaits =>
    rw [turn_of_task halive hawake hqueue, runTask, Option.some.injEq] at hturn
    cases hknocks with
    | unsent hrequests =>
      have hbegun := @Knocks.beginConnect host before { loop with queue := [] } env hrequests hwaits
      rw [hturn] at hbegun
      exact hbegun
    | sent _ hempty =>
      rw [hqueue] at hempty
      cases hempty
  | resolving due finding _ hqueue hwaits =>
    rw [turn_of_no_task halive hawake hqueue, hwaits] at hturn
    obtain ⟨⟨wait, others⟩, htake, hfire⟩ := Option.map_eq_some_iff.mp hturn
    obtain ⟨rfl, rfl, _⟩ := takeDue_singleton htake
    cases hknocks with
    | unsent hrequests =>
      cases finding with
      | ok script =>
        rw [fire, Loop.enter, Prod.mk.injEq] at hfire
        obtain ⟨rfl, rfl⟩ := hfire
        refine .unsent hrequests ?_
        simp +contextual [Loop.await]
      | error reason =>
        cases hfire
        exact .ended (.inl hrequests) hqueue rfl
    | sent _ _ hbehind =>
      obtain ⟨_, _, hstage, _⟩ := hbehind _ (hwaits ▸ List.mem_singleton_self _)
      cases hstage
  | underway clock stage exchange _ hqueue hreaches hwaits =>
    rw [turn_of_no_task halive hawake hqueue, hwaits] at hturn
    obtain ⟨⟨wait, others⟩, htake, hfire⟩ := Option.map_eq_some_iff.mp hturn
    obtain ⟨rfl, rfl, due, hdue, _⟩ := takeDue_singleton htake
    rcases fire_stage hreaches (stageDue_eq_some.mp hdue).1 env { loop with waits := [] } .attempt with
      ⟨delivery, _, _, hdeliver⟩ | ⟨next, hnext, _, _, henter⟩
    · obtain ⟨rfl, rfl⟩ := Prod.mk.inj (hdeliver.symm.trans hfire)
      obtain ⟨hkept, hdone⟩ := deliver_attempt_frame { loop with waits := [] } delivery
      exact .ended hknocks.requests_cases (hkept.trans hqueue) hdone
    · exact hknocks.enter (hwaits ▸ List.mem_singleton_self _) rfl hnext hhost hqueue
        (henter.symm.trans hfire)
  | refused _ _ hqueue hwaits | welcomed _ hqueue hwaits =>
    rw [turn_of_no_task halive hawake hqueue, hwaits] at hturn
    cases hturn

end Loop

theorem Script.Names.unique {script : Script} {service other : Service}
    (hnames : script.Names service) (hother : script.Names other) : service = other := by
  obtain ⟨body, reply, hconduct, hparse, hservice⟩ := hnames
  obtain ⟨body', reply', hconduct', hparse', hservice'⟩ := hother
  cases hconduct.symm.trans hconduct'
  cases hparse.symm.trans hparse'
  exact Except.ok.inj (hservice.symm.trans hservice')

namespace Link

variable {link after : Link} {account : Account}

theorem giveUp_requests {host : Bytes} {loop : Loop} (hlive : link.live = some loop)
    (halone : link.detached = []) (hgreeting : loop.Greeting host) (reason : Entry) :
    (link.giveUp reason).2.env.requests = link.env.requests := by
  obtain ⟨env, hstopped, _, hrequests⟩ := @stopLoop_of_yielding (link.log reason) loop hlive halone
    hgreeting.yielding hgreeting.noStart
  rw [giveUp, hstopped]
  exact hrequests

theorem attach_requests (halone : link.detached = []) (host : Bytes) (port : UInt16) :
    (link.attach host port).2.env.requests = link.env.requests ∨
      (link.attach host port).2.env.requests = .handshake host :: link.env.requests := by
  rcases attach_launched_alone host port halone with ⟨clock, journal, starts, hattach⟩ | hattach
  · exact .inl (by rw [hattach])
  · obtain ⟨clock, journal, starts, hlaunched⟩ := launched_alone host port halone
    have hnone : (link.launched host port).detached = [] := by rw [hlaunched]; exact halone
    have hbefore : (link.launched host port).env.requests = link.env.requests := by rw [hlaunched]
    obtain ⟨waited, loop, hlive, hleft, _, hgreeting, hknocks, hend⟩ :=
      @attempt_rule (link.launched host port) (Loop.Knocks host link.env.requests) hnone host port
        (fun _ _ _ _ hnow hknocks hturn => hknocks.turn hnow hturn)
        (fun _ _ clock hknocks => hknocks.clock clock) (.unsent hbefore (List.forall_mem_nil _))
    have hsent := hknocks.requests_cases
    rw [hattach]
    rcases hend with ⟨reason, hattempt⟩ | ⟨_, hattempt⟩
    · rw [hattempt, giveUp_requests hlive hleft hgreeting reason]
      exact hsent
    · rw [hattempt]
      exact hsent

theorem attach_isConnected (link : Link) (host : Bytes) (port : UInt16) :
    (link.attach host port).2.isConnected = (link.attach host port).1 := by
  rcases link.attach_cases host port with ⟨env, detached, hattach⟩ |
      ⟨env, loop, detached, service, hattach, hjoined, _⟩
  · simp [hattach, isConnected]
  · simp [hattach, isConnected, hjoined.connected]

theorem connect_of_apart (happart : link.isConnected = false) (host : Bytes) (port : UInt16) :
    link.connect host port = link.attach host port := by
  rw [Link.connect, happart]
  rfl

/-- What a link says of its connection. -/
structure SameConnection (link after : Link) : Prop where
  phase : after.phase = link.phase
  connected : after.isConnected = link.isConnected
  host : after.host = link.host
  port : after.port = link.port
  nodeId : after.nodeId = link.nodeId

theorem Use.fits (huse : Use link after) (hfits : Fits link account) :
    ∃ calls, Fits after { account with calls } := by
  cases huse with
  | invoked method params timeout =>
    have hcall : account.call = { account with calls := account.call.calls } := by
      unfold Account.call
      split <;> rfl
    have hinvoked := hfits.invoke method params timeout
    split at hinvoked
    · rw [hcall] at hinvoked
      exact ⟨_, hinvoked⟩
    · exact ⟨account.calls, hinvoked⟩
  | driven ready deadline => exact ⟨account.calls, hfits.drive ready deadline⟩
  | noted journal => exact ⟨account.calls, hfits.env _⟩

theorem Used.fits (hused : link.Used after) (hfits : Fits link account) :
    ∃ calls, Fits after { account with calls } := by
  induction hused with
  | refl => exact ⟨account.calls, hfits⟩
  | tail _ huse ih =>
    obtain ⟨calls, hfits⟩ := ih
    obtain ⟨more, hfits⟩ := huse.fits hfits
    exact ⟨more, hfits⟩

theorem Fits.phase_of_connected (hfits : Fits link account) (hconnected : link.isConnected = true) :
    link.phase = .connected := by
  rcases hfits.phase_cases with ⟨hphase, _⟩ | ⟨_, happart, _⟩
  · exact hphase
  · rw [hconnected] at happart
    cases happart

theorem Used.connection (hused : link.Used after) (hfits : Fits link account)
    (hconnected : link.isConnected = true) : link.SameConnection after := by
  obtain ⟨calls, hafter⟩ := hused.fits hfits
  have hsome := hfits.isConnected_eq.symm.trans hconnected
  have hstill : after.isConnected = true := hafter.isConnected_eq.trans hsome
  obtain ⟨connection, hconnection⟩ := Option.isSome_iff_exists.mp hsome
  obtain ⟨hhost, hport, service, hnames, hnode⟩ := hfits.handshake hconnection
  obtain ⟨hhost', hport', service', hnames', hnode'⟩ := hafter.handshake hconnection
  refine ⟨?_, hstill.trans hconnected.symm, hhost'.trans hhost.symm, hport'.trans hport.symm, ?_⟩
  · rw [hfits.phase_of_connected hconnected, hafter.phase_of_connected hstill]
  · rw [hnode, hnode', hnames.unique hnames']

end Link

end Offload
