import Offload.Proofs.Link.Handshake

namespace Offload

namespace Link

/-- One operation on a link, or the surroundings settling what becomes of the exchanges, resolutions and
starts of loops to come. -/
inductive Command
  | connect (host : Bytes) (port : UInt16)
  | disconnect
  | invoke (method : Bytes) (params : Json) (timeout : Int)
  | call (timeout : Int) (operation : Operation)
  /-- The caller waits for a condition, or lets the time pass. -/
  | wait (milliseconds : Int) (ready : Link → Bool)
  | lay (scripts : List Script) (resolutions : List Resolution) (starts : List Start := [])

/-- The link after one operation. What the operation answers is left out here. -/
def perform (link : Link) : Command → Link
  | .connect host port => (link.connect host port).2
  | .disconnect => link.disconnect
  | .invoke method params timeout => (link.invoke method params timeout).2
  | .call timeout operation => (link.call timeout operation).2
  | .wait milliseconds ready => link.waitFor milliseconds ready
  | .lay scripts resolutions starts =>
    { link with env := { link.env with scripts, resolutions, starts } }

/-- The link from which an attempt to connect to another endpoint starts. -/
def parted (link : Link) : Link := if link.isConnected then link.disconnect else link

/-- A connection as the user of a link knows it: its endpoint, and how the peer treated the handshake. -/
structure Connection where
  host : Bytes
  port : UInt16
  handshake : Script

/-- The connection that an attempt to connect makes if it succeeds. -/
def opens (link : Link) (host : Bytes) (port : UInt16) : Connection :=
  ⟨host, port, (link.launched host port).env.takeScript.1⟩

/-- What the user of a link knows from the operations: the connection that the last attempt to connect
has brought about, unless it was ended since, and how many calls were made over connections. -/
structure Account where
  connection : Option Connection := none
  calls : Nat := 0

namespace Account

/-- An attempt to connect that succeeds keeps a connection to the same endpoint, or makes a new one, for
which the peer's next treatment, once the loop runs, is that of the handshake. -/
def connect (account : Account) (link : Link) (host : Bytes) (port : UInt16) : Account :=
  if (link.connect host port).1 then
    match account.connection with
    | some connection =>
      if host = connection.host ∧ port = connection.port then account
      else { account with connection := some (link.parted.opens host port) }
    | none => { account with connection := some (link.parted.opens host port) }
  else { account with connection := none }

def call (account : Account) : Account :=
  if account.connection.isSome then { account with calls := account.calls + 1 } else account

/-- The account after one operation on the link. -/
def next (account : Account) (link : Link) : Command → Account
  | .connect host port => account.connect link host port
  | .disconnect => { account with connection := none }
  | .invoke _ params _ => if (params.dump .compact).isOk then account.call else account
  | .call _ _ => account.call
  | .wait _ _ | .lay _ _ _ => account

end Account

/-- Links as they come about, each with the account of the operations on it. -/
inductive Tracked : Link → Account → Prop
  | opened (env : Environment) (limits : Limits) : Tracked { env, limits } {}
  | step {link : Link} {account : Account} (htracked : Tracked link account) (command : Command) :
    Tracked (link.perform command) (account.next link command)

variable {link : Link} {account : Account}

/-- How a link and its account fit together between two operations. -/
inductive Fits : Link → Account → Prop
  | apart {link : Link} {account : Account} (hlive : link.live = none)
    (hphase : link.phase = .disconnected) (hconnection : account.connection = none)
    (hcalls : link.dispatched = account.calls) : Fits link account
  | joined {link : Link} {account : Account} (loop : Loop) (connection : Connection)
    (service : Service) (hlive : link.live = some loop) (hphase : link.phase = .connected)
    (hconnection : account.connection = some connection) (hhost : link.host = connection.host)
    (hport : link.port = connection.port) (hjoined : loop.Joined service)
    (hnames : connection.handshake.Names service) (hcalls : link.dispatched = account.calls) :
    Fits link account

theorem Fits.isConnected_eq (hfits : Fits link account) :
    link.isConnected = account.connection.isSome := by
  cases hfits with
  | apart hlive hphase hconnection => simp [isConnected, hphase, hconnection]
  | joined loop connection service hlive hphase hconnection _ _ hjoined =>
    simp [isConnected, hphase, hlive, hconnection, hjoined.connected]

theorem Fits.dispatched_eq (hfits : Fits link account) : link.dispatched = account.calls := by
  cases hfits <;> assumption

theorem Fits.handshake (hfits : Fits link account) {connection : Connection}
    (hconnection : account.connection = some connection) :
    link.host = connection.host ∧ link.port = connection.port ∧
      ∃ service, connection.handshake.Names service ∧ link.nodeId = service.nodeId := by
  cases hfits with
  | apart _ _ hnone =>
    rw [hnone] at hconnection
    cases hconnection
  | joined loop other service hlive _ hother hhost hport hjoined hnames =>
    cases hother.symm.trans hconnection
    refine ⟨hhost, hport, service, hnames, ?_⟩
    simp [Link.nodeId, hlive, hjoined.connected, hjoined.named]

theorem Fits.phase_cases (hfits : Fits link account) :
    link.phase = .connected ∧ link.isConnected = true ∨
      link.phase = .disconnected ∧ link.isConnected = false ∧ link.live = none := by
  cases hfits with
  | apart hlive hphase => exact .inr ⟨hphase, by simp [isConnected, hphase], hlive⟩
  | joined loop _ _ hlive hphase _ _ _ hjoined =>
    exact .inl ⟨hphase, by simp [isConnected, hphase, hlive, hjoined.connected]⟩

theorem Fits.env (hfits : Fits link account) (env : Environment) : Fits { link with env } account := by
  cases hfits with
  | apart hlive hphase hconnection hcalls => exact .apart hlive hphase hconnection hcalls
  | joined loop connection service hlive hphase hconnection hhost hport hjoined hnames hcalls =>
    exact .joined loop connection service hlive hphase hconnection hhost hport hjoined hnames hcalls

theorem Fits.drive (hfits : Fits link account) (ready : Link → Bool) (deadline : Nat) :
    Fits (link.drive ready deadline) account := by
  cases hfits with
  | apart hlive hphase hconnection hcalls =>
    obtain ⟨env, detached, hdrive⟩ := drive_apart hlive ready deadline
    rw [hdrive]
    exact .apart hlive hphase hconnection hcalls
  | joined loop connection service hlive hphase hconnection hhost hport hjoined hnames hcalls =>
    obtain ⟨env, after, detached, hafter, hdrive⟩ :=
      @drive_live link (fun _ loop => loop.Joined service) loop
        (fun _ _ _ _ hnow hturn => hnow.turn hturn) (fun _ _ _ hnow _ => hnow) hlive hjoined ready deadline
    rw [hdrive]
    exact .joined after connection service rfl hphase hconnection hhost hport hafter hnames hcalls

theorem Fits.waitFor (hfits : Fits link account) (milliseconds : Int) (ready : Link → Bool) :
    Fits (link.waitFor milliseconds ready) account :=
  hfits.drive ready _

theorem Fits.post (hfits : Fits link account) {task : Task} (htask : task.OfCall) :
    Fits (link.post task) account := by
  cases hfits with
  | apart hlive hphase hconnection hcalls =>
    exact .apart (by rw [Link.post, hlive]; rfl) hphase hconnection hcalls
  | joined loop connection service hlive hphase hconnection hhost hport hjoined hnames hcalls =>
    exact .joined (loop.post task) connection service (by rw [Link.post, hlive]; rfl) hphase
      hconnection hhost hport (hjoined.post htask) hnames hcalls

/-- Whatever a call does, it counts once, if it is made over a connection. -/
theorem Fits.call (hfits : Fits link account) (timeout : Int) (operation : Operation) :
    Fits (link.call timeout operation).2 account.call := by
  cases hfits with
  | apart hlive hphase hconnection hcalls =>
    have hsame : (link.call timeout operation).2 = link := by
      rw [Link.call, hlive]
      rfl
    have hcount : account.call = account := by
      rw [Account.call, hconnection]
      rfl
    rw [hsame, hcount]
    exact .apart hlive hphase hconnection hcalls
  | joined loop connection service hlive hphase hconnection hhost hport hjoined hnames hcalls =>
    have hcount : account.call = { account with calls := account.calls + 1 } := by
      rw [Account.call, hconnection]
      rfl
    have hnumbered : Fits { link with dispatched := link.dispatched + 1 } account.call := by
      rw [hcount]
      exact .joined loop connection service hlive hphase hconnection hhost hport hjoined hnames
        (congrArg (· + 1) hcalls)
    have htask : (Task.start (link.dispatched + 1) operation).OfCall := trivial
    have hstarted := hnumbered.post htask
    have hwaited := hstarted.waitFor timeout fun l => (l.outcome? (link.dispatched + 1)).isSome
    have hconnected : (link.live.map (·.connected)).getD false = true := by
      rw [hlive]
      exact hjoined.connected
    rw [Link.call, if_pos hconnected]
    simp only
    split
    · exact hwaited
    · exact (hwaited.env _).post trivial

theorem Fits.invoke (hfits : Fits link account) (method : Bytes) (params : Json) (timeout : Int) :
    Fits (link.invoke method params timeout).2
      (if (params.dump .compact).isOk then account.call else account) := by
  unfold Link.invoke
  cases params.dump .compact with
  | ok body => exact hfits.call timeout _
  | error fault => exact hfits

theorem stopLoop_eq {loop : Loop} (hlive : link.live = some loop) :
    ∃ env detached, link.stopLoop = { link with env, live := none, detached } := by
  let asked : Link := { link with live := link.live.map Loop.askToStop }
  have hasked : asked.live = some loop.askToStop := by simp [asked, hlive]
  obtain ⟨env, after, detached, _, hdrive⟩ := @drive_live asked (fun _ _ => True) _
    (fun _ _ _ _ _ _ => trivial) (fun _ _ _ _ _ => trivial) hasked trivial isStopped
    (asked.env.clock + asked.env.span link.limits.join)
  have hwaited : asked.waitFor link.limits.join isStopped =
      { asked with env, live := some after, detached } := hdrive
  simp only [stopLoop]
  rw [hwaited]
  split
  · exact ⟨env, detached, rfl⟩
  · exact ⟨_, detached ++ [after], rfl⟩

theorem disconnect_eq (link : Link) :
    ∃ env detached, link.disconnect =
      { link with env, live := none, phase := .disconnected, detached } := by
  unfold disconnect
  cases hlive : link.live with
  | none =>
    refine ⟨link.env, link.detached, ?_⟩
    cases link
    cases hlive
    rfl
  | some loop =>
    obtain ⟨env, detached, hstopped⟩ := @stopLoop_eq (link.log
      (.info (utf8 "Disconnecting from " ++ link.endpoint))) loop hlive
    refine ⟨env, detached, ?_⟩
    simp only [Option.isNone_some, Bool.false_eq_true, if_false, hstopped]
    rfl

theorem Fits.disconnect (hfits : Fits link account) :
    Fits link.disconnect { account with connection := none } := by
  have hcalls := hfits.dispatched_eq
  obtain ⟨env, detached, hdisconnect⟩ := link.disconnect_eq
  rw [hdisconnect]
  exact .apart rfl rfl rfl hcalls

/-- An attempt to connect ends without a loop, or with one that is joined to the service that the peer
names in the handshake. -/
theorem attempt_cases (link : Link) (host : Bytes) (port : UInt16) :
    (∃ env detached, link.attempt host port =
        (false, { link with env, phase := .disconnected, live := none, detached })) ∨
      ∃ env loop detached service, link.attempt host port =
          (true, { link with env, phase := .connected, live := some loop, detached }) ∧
        loop.Joined service ∧ link.env.takeScript.1.Names service ∧ loop.Greeting host ∧
        loop.verdict = some (.ok ()) := by
  let first : Loop := ({ host, port } : Loop).post .connect
  let started : Link := { link with live := some first }
  have hfirst : first.Greeting host := .posted _ ⟨rfl, rfl, rfl, rfl⟩ rfl rfl rfl rfl
  have hhears : Loop.Hears link.env.takeScript.1 started.env first := .posted rfl rfl rfl rfl
  obtain ⟨env, loop, detached, ⟨hgreeting, hheard⟩, hdrive⟩ := @drive_live started
    (fun env loop => loop.Greeting host ∧ Loop.Hears link.env.takeScript.1 env loop) first
    (fun _ _ _ _ hnow hturn => ⟨hnow.1.turn hturn, hnow.2.turn hnow.1 hturn⟩)
    (fun _ _ env hnow hrest => ⟨hnow.1, hnow.2.idle hnow.1 hrest env⟩) rfl ⟨hfirst, hhears⟩
    (fun now => now.verdict.isSome) (started.env.clock + started.env.span link.limits.connect)
  let waited : Link := { started with env, live := some loop, detached }
  have hwaited : started.waitFor link.limits.connect (fun now => now.verdict.isSome) = waited := hdrive
  have hgone : ∀ reason, ∃ env detached, waited.giveUp reason =
      (false, { link with env, phase := .disconnected, live := none, detached }) := by
    intro reason
    obtain ⟨env, detached, hstopped⟩ := @stopLoop_eq (waited.log reason) loop rfl
    refine ⟨env, detached, ?_⟩
    rw [giveUp, hstopped]
    rfl
  have hverdict : waited.verdict = loop.verdict := rfl
  simp only [attempt]
  rw [show Link.waitFor _ _ _ = waited from hwaited, hverdict]
  cases hsaid : loop.verdict with
  | none => exact .inl (hgone _)
  | some verdict =>
    cases verdict with
    | error failure => exact .inl (hgone _)
    | ok _ =>
      obtain ⟨service, hjoined, hnames⟩ := hheard.joined hgreeting hsaid
      exact .inr ⟨_, loop, detached, service, rfl, hjoined, hnames, hgreeting, hsaid⟩

theorem attach_cases (link : Link) (host : Bytes) (port : UInt16) :
    (∃ env detached, link.attach host port =
        (false, { link with env, host, port, phase := .disconnected, live := none, detached })) ∨
      ∃ env loop detached service, link.attach host port =
          (true, { link with env, host, port, phase := .connected, live := some loop, detached }) ∧
        loop.Joined service ∧ (link.opens host port).handshake.Names service ∧ loop.Greeting host ∧
        loop.verdict = some (.ok ()) := by
  rcases link.attach_launched host port with hfailed | hattach
  · exact .inl hfailed
  · obtain ⟨_, _, hlaunched⟩ := link.launched_apart host port
    rw [hattach]
    rcases (link.launched host port).attempt_cases host port with ⟨env, detached, hattempt⟩ |
        ⟨env, loop, detached, service, hattempt, hrest⟩
    · rw [hattempt, hlaunched]
      exact .inl ⟨env, detached, rfl⟩
    · refine .inr ⟨env, loop, detached, service, ?_, hrest⟩
      rw [hattempt, hlaunched]

theorem Fits.connect_self (hfits : Fits link account) {connection : Connection}
    (hconnection : account.connection = some connection) :
    link.connect connection.host connection.port = (true, link) := by
  have hlinked : link.isConnected = true := by simp [hfits.isConnected_eq, hconnection]
  obtain ⟨hhost, hport, _⟩ := hfits.handshake hconnection
  rw [Link.connect, if_pos hlinked, if_pos ⟨hhost.symm, hport.symm⟩]

theorem attach_fits (link : Link) (host : Bytes) (port : UInt16)
    (hcalls : link.dispatched = account.calls) :
    Fits (link.attach host port).2
      (if (link.attach host port).1 then { account with connection := some (link.opens host port) }
      else { account with connection := none }) := by
  rcases link.attach_cases host port with ⟨env, detached, hattach⟩ |
      ⟨env, loop, detached, service, hattach, hjoined, hnames, _⟩
  · rw [hattach]
    exact .apart rfl rfl rfl hcalls
  · rw [hattach]
    exact .joined loop (link.opens host port) service rfl rfl rfl rfl rfl hjoined hnames hcalls

theorem Fits.connect (hfits : Fits link account) (host : Bytes) (port : UInt16) :
    Fits (link.connect host port).2 (account.connect link host port) := by
  have hconnected := hfits.isConnected_eq
  have hcalls := hfits.dispatched_eq
  cases hconnection : account.connection with
  | none =>
    have hunlinked : ¬ link.isConnected = true := by simp [hconnected, hconnection]
    have hconnect : link.connect host port = link.attach host port := if_neg hunlinked
    have hparted : link.parted = link := if_neg hunlinked
    rw [Account.connect, hconnect, hparted, hconnection]
    exact link.attach_fits host port hcalls
  | some connection =>
    have hlinked : link.isConnected = true := by simp [hconnected, hconnection]
    by_cases hsame : host = connection.host ∧ port = connection.port
    · obtain ⟨rfl, rfl⟩ := hsame
      have hkept := hfits.connect_self hconnection
      rw [Account.connect, hkept, hconnection]
      simpa using hfits
    · obtain ⟨hhost, hport, _⟩ := hfits.handshake hconnection
      have hconnect : link.connect host port = link.disconnect.attach host port := by
        rw [Link.connect, if_pos hlinked, hhost, hport, if_neg hsame]
      have hparted : link.parted = link.disconnect := if_pos hlinked
      rw [Account.connect, hconnect, hparted, hconnection]
      simp only [if_neg hsame]
      exact link.disconnect.attach_fits host port hfits.disconnect.dispatched_eq

/-- Every operation keeps the link and its account together. -/
theorem Fits.perform (hfits : Fits link account) (command : Command) :
    Fits (link.perform command) (account.next link command) := by
  cases command with
  | connect host port => exact hfits.connect host port
  | disconnect => exact hfits.disconnect
  | invoke method params timeout => exact hfits.invoke method params timeout
  | call timeout operation => exact hfits.call timeout operation
  | wait milliseconds ready => exact hfits.waitFor milliseconds ready
  | lay scripts resolutions starts => exact hfits.env _

theorem Tracked.fits (htracked : Tracked link account) : Fits link account := by
  induction htracked with
  | opened env limits => exact .apart rfl rfl rfl rfl
  | step _ command ih => exact ih.perform command

theorem Account.calls_le_next (account : Account) (link : Link) (command : Command) :
    account.calls ≤ (account.next link command).calls := by
  have hcall : account.calls ≤ account.call.calls := by
    unfold Account.call
    split
    · exact Nat.le_succ _
    · exact Nat.le_refl _
  cases command with
  | connect host port =>
    rw [Account.next, Account.connect]
    split
    · split
      · split <;> exact Nat.le_refl _
      · exact Nat.le_refl _
    · exact Nat.le_refl _
  | invoke method params timeout =>
    rw [Account.next]
    split
    · exact hcall
    · exact Nat.le_refl _
  | call timeout operation => exact hcall
  | disconnect | wait | lay => exact Nat.le_refl _

/-- Between two operations a link is connected or it is not, as its user knows it to be. Without a
connection it has nothing in flight and no node. A connection is one to the endpoint that it was made to,
with the node that the handshake named, and connecting there again changes nothing. The calls made over
connections are counted once each, and the count never goes back. -/
theorem connection_state (htracked : Tracked link account) :
    link.phase ≠ .connecting ∧
      (link.phase = .connected ↔ link.isConnected = true) ∧
      (link.isConnected = true ↔ account.connection.isSome = true) ∧
      (link.phase = .disconnected → link.inFlight = 0 ∧ link.nodeId = 0) ∧
      (∀ connection, account.connection = some connection →
        link.host = connection.host ∧ link.port = connection.port ∧
        connection.handshake.Delivers link.nodeId ∧
        link.connect connection.host connection.port = (true, link)) ∧
      link.dispatched = account.calls ∧
      ∀ command, link.dispatched ≤ (link.perform command).dispatched := by
  have hfits := htracked.fits
  refine ⟨?_, ?_, by rw [hfits.isConnected_eq], ?_, ?_, hfits.dispatched_eq, ?_⟩
  · rcases hfits.phase_cases with ⟨hphase, _⟩ | ⟨hphase, _⟩ <;> simp [hphase]
  · rcases hfits.phase_cases with ⟨hphase, hconnected⟩ | ⟨hphase, hconnected, _⟩ <;>
      simp [hphase, hconnected]
  · intro hdisconnected
    rcases hfits.phase_cases with ⟨hphase, _⟩ | ⟨_, _, hlive⟩
    · rw [hdisconnected] at hphase
      cases hphase
    · simp [inFlight, nodeId, hlive]
  · intro connection hconnection
    obtain ⟨hhost, hport, service, hnames, hnode⟩ := hfits.handshake hconnection
    refine ⟨hhost, hport, ?_, hfits.connect_self hconnection⟩
    rw [hnode]
    exact hnames.delivers
  · intro command
    have hnext := (hfits.perform command).dispatched_eq
    rw [hnext, hfits.dispatched_eq]
    exact account.calls_le_next link command

/-- A link to a peer that answers the handshake as node seven. -/
def polite : Link where
  env := { scripts := [{ conduct := .answer 200 (utf8 "\x7b\"service\":\"node\",\"nodeId\":7\x7d") }] }

/-- The link has connected and made one call. -/
theorem connection_state_polite :
    let joined := polite.perform (.connect (utf8 "peer") 7000)
    let called := joined.perform (.call 10 [.complete .callId])
    ∃ account, Tracked called account ∧ called.phase = .connected ∧ called.nodeId = 7 ∧
      called.connect (utf8 "peer") 7000 = (true, called) ∧ called.dispatched = 1 := by
  intro joined called
  have htracked := ((Tracked.opened polite.env {}).step (.connect (utf8 "peer") 7000)).step
    (.call 10 [.complete .callId])
  obtain ⟨_, hphase, _, _, hconnection, hcalls, _⟩ := connection_state htracked
  obtain ⟨_, _, _, hagain⟩ := hconnection _ rfl
  exact ⟨_, htracked, hphase.mpr rfl, rfl, hagain, hcalls⟩

end Link

end Offload
