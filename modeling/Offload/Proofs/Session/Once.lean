import Offload.Proofs.Link.Connection
import Offload.Proofs.Session.Tracking
import Offload.Session.Once

namespace Offload.Session

variable {session : Session}

theorem uses_submitAndWait (session : Session) (definition : Definition) (input : Bytes)
    (options : Options) (timeout : Int) :
    session.Uses (session.submitAndWait definition input options timeout).2 := by
  have hsubmitted := session.uses_submit definition input options
  unfold submitAndWait
  split
  · next id submitted hsubmit =>
    rw [hsubmit] at hsubmitted
    exact hsubmitted.trans (submitted.uses_result id timeout)
  · next failure refused hsubmit =>
    rw [hsubmit] at hsubmitted
    exact hsubmitted

/-- How the wait for the result of a tracked job may end. -/
inductive Told (id : Bytes) (timeout : Int) : Except Failure JobResult → Prop
  | delivered (result : JobResult) : Told id timeout (.ok result)
  | failed (text : Bytes) : Told id timeout (.error (.jobFailed text))
  | overdue : Told id timeout (.error (.jobTimeout id timeout))

theorem poll_told (id : Bytes) (timeout : Int) (remaining : Nat) (record : JobRecord)
    (session : Session) : Told id timeout (poll id timeout remaining record session).1 :=
  poll_induction (motive := fun _ _ told => Told id timeout told.1) (fun _ _ _ _ => .delivered _)
    (fun _ _ => .failed _) (fun _ _ => .overdue) (fun _ _ _ _ htold => htold) remaining record session

theorem result_told {id : Bytes} {found : JobRecord} (hfound : session.record? id = some found)
    (timeout : Int) : Told id timeout (session.result id timeout).1 := by
  unfold result
  rw [hfound]
  simp only
  split
  · split
    · exact .delivered _
    · exact poll_told _ _ _ _ _
  · exact poll_told _ _ _ _ _

theorem submitAndWait_cases (session : Session) (definition : Definition) (input : Bytes)
    (options : Options) (timeout : Int) :
    (¬ options.Valid ∧ ∃ failure refused,
        session.submit definition input options = (.error failure, refused) ∧
        session.submitAndWait definition input options timeout = (.error failure, refused)) ∨
      options.Valid ∧ ∃ submitted,
        session.submit definition input options =
          (.ok (Identity.make definition.name input), submitted) ∧
        session.submitAndWait definition input options timeout =
          submitted.result (Identity.make definition.name input) timeout ∧
        Told (Identity.make definition.name input) timeout
          (submitted.result (Identity.make definition.name input) timeout).1 := by
  by_cases hvalid : options.Valid
  · obtain ⟨submitted, record, hsubmit, hrecord⟩ := session.submit_of_valid definition input hvalid
    exact .inr ⟨hvalid, submitted, hsubmit, by rw [submitAndWait, hsubmit],
      result_told hrecord timeout⟩
  · obtain ⟨failure, hsubmit⟩ := session.submit_of_invalid definition input hvalid
    exact .inl ⟨hvalid, failure, _, hsubmit, by rw [submitAndWait, hsubmit]⟩

theorem ofConfig_connect (config : Config) (env : Environment) :
    ∃ connected link,
      (ofConfig config env).node.link.attach config.host config.port = (connected, link) ∧
      (ofConfig config env).connect =
        (connected, { ofConfig config env with node := { config, link } }) := by
  have happart : (ofConfig config env).node.link.isConnected = false := rfl
  have hconnect := Link.connect_of_apart happart config.host config.port
  generalize (ofConfig config env).node.link.attach config.host config.port = attached at hconnect
  refine ⟨attached.1, attached.2, rfl, ?_⟩
  rw [← hconnect]
  rfl

theorem unconnected_of_connect {config : Config} {env : Environment} {unconnected : Session}
    (hconnect : (ofConfig config env).connect = (false, unconnected)) :
    unconnected.isConnected = false ∧ unconnected.ran = [] ∧ unconnected.list = [] ∧
      (unconnected.requests = env.requests ∨
        unconnected.requests = .handshake config.host :: env.requests) := by
  obtain ⟨connected, link, hattach, hsame⟩ := ofConfig_connect config env
  obtain ⟨rfl, rfl⟩ := Prod.mk.inj (hsame.symm.trans hconnect)
  have hapart := (ofConfig config env).node.link.attach_isConnected config.host config.port
  have hsent := @Link.attach_requests (ofConfig config env).node.link rfl config.host config.port
  rw [hattach] at hapart hsent
  exact ⟨hapart, rfl, rfl, hsent⟩

theorem connected_of_connect {config : Config} {env : Environment} {connected : Session}
    (hconnect : (ofConfig config env).connect = (true, connected)) :
    connected.Steady ∧ connected.isConnected = true ∧ connected.node.link.host = config.host ∧
      connected.node.link.port = config.port ∧ ∃ account, Link.Fits connected.node.link account := by
  obtain ⟨_, link, hattach, hsame⟩ := ofConfig_connect config env
  obtain ⟨rfl, rfl⟩ := Prod.mk.inj (hsame.symm.trans hconnect)
  have hsteady := @Link.attach_steady (ofConfig config env).node.link rfl config.host config.port
  have hjoined := (ofConfig config env).node.link.attach_isConnected config.host config.port
  have hfits := @Link.attach_fits {} (ofConfig config env).node.link config.host config.port rfl
  have hendpoint : link.host = config.host ∧ link.port = config.port := by
    rcases (ofConfig config env).node.link.attach_cases config.host config.port with
      ⟨_, _, hother⟩ | ⟨_, _, _, _, hother, _⟩
    · cases hattach.symm.trans hother
    · cases hattach.symm.trans hother
      exact ⟨rfl, rfl⟩
  rw [hattach] at hsteady hjoined hfits
  exact ⟨hsteady, hjoined, hendpoint.1, hendpoint.2, _, hfits⟩

theorem Steady.disconnected (hsteady : session.Steady) :
    session.disconnect.isConnected = false ∧ session.disconnect.node.link.phase = .disconnected ∧
      session.disconnect.node.link.loops = [] ∧ session.disconnect.requests = session.requests ∧
      session.disconnect.clock = session.clock ∧ session.disconnect.ran = session.ran := by
  obtain ⟨env, hdisconnect, hclock, hrequests⟩ := Link.Steady.disconnect_eq hsteady
  have hlink : session.disconnect.node.link = _ := hdisconnect
  refine ⟨?_, ?_, ?_, ?_, ?_, rfl⟩
  · rw [isConnected, Node.isConnected, hlink]
    rfl
  · rw [hlink]
  · rw [hlink]
    exact Link.Steady.detached hsteady
  · rw [requests, hlink]
    exact hrequests
  · rw [clock, hlink]
    exact hclock

/-- A job that is submitted once always leaves the node disconnected. If the attempt to connect fails,
that is what is told: at most the handshake was sent, and no function of the job was called. Otherwise
the outcome is that of the submission, or of the wait for its result. Whatever has been done with the
link until that outcome was there, it has been over the one connection, and that is ended then, with
nothing left behind, nothing sent and no time passed. -/
theorem once_disconnects (config : Config) (env : Environment) (definition : Definition)
    (input : Bytes) (options : Options) (timeout : Int) :
    (∀ unconnected, (ofConfig config env).connect = (false, unconnected) →
      once config env definition input options timeout =
          (.error (.unreachable (Link.nameEndpoint config.host config.port)), unconnected) ∧
        unconnected.isConnected = false ∧ unconnected.ran = [] ∧ unconnected.list = [] ∧
        (unconnected.requests = env.requests ∨
          unconnected.requests = .handshake config.host :: env.requests)) ∧
      ∀ connected, (ofConfig config env).connect = (true, connected) →
        connected.isConnected = true ∧ connected.node.link.host = config.host ∧
          connected.node.link.port = config.port ∧
        ∃ outcome ended,
          once config env definition input options timeout = (outcome, ended.disconnect) ∧
          connected.Uses ended ∧
          (∀ now, connected.node.link.Used now → connected.node.link.SameConnection now) ∧
          ended.disconnect.isConnected = false ∧ ended.disconnect.node.link.phase = .disconnected ∧
          ended.disconnect.node.link.loops = [] ∧ ended.disconnect.requests = ended.requests ∧
          ended.disconnect.clock = ended.clock ∧ ended.disconnect.ran = ended.ran ∧
          ((¬ options.Valid ∧ ∃ failure,
              connected.submit definition input options = (.error failure, ended) ∧
              outcome = .error failure) ∨
            options.Valid ∧ ∃ submitted,
              connected.submit definition input options =
                (.ok (Identity.make definition.name input), submitted) ∧
              submitted.result (Identity.make definition.name input) timeout = (outcome, ended) ∧
              Told (Identity.make definition.name input) timeout outcome) := by
  constructor
  · intro unconnected hconnect
    exact ⟨by rw [once, hconnect], unconnected_of_connect hconnect⟩
  · intro connected hconnect
    obtain ⟨hsteady, hjoined, hhost, hport, account, hfits⟩ := connected_of_connect hconnect
    have hused := connected.uses_submitAndWait definition input options timeout
    have hended := hused.steady hsteady
    have hcases := connected.submitAndWait_cases definition input options timeout
    have honce : once config env definition input options timeout =
        ((connected.submitAndWait definition input options timeout).1,
          (connected.submitAndWait definition input options timeout).2.disconnect) := by
      rw [once, hconnect]
    generalize connected.submitAndWait definition input options timeout = told at *
    obtain ⟨outcome, ended⟩ := told
    obtain ⟨hapart, hphase, hloops, hrequests, hclock, hran⟩ := Steady.disconnected hended
    refine ⟨hjoined, hhost, hport, outcome, ended, honce, hused,
      fun now hnow => hnow.connection hfits hjoined, hapart, hphase, hloops, hrequests, hclock, hran, ?_⟩
    rcases hcases with ⟨hinvalid, failure, refused, hsubmit, htold⟩ |
        ⟨hvalid, submitted, hsubmit, htold, hhow⟩
    · cases htold
      exact .inl ⟨hinvalid, failure, hsubmit, rfl⟩
    · rw [← htold] at hhow
      exact .inr ⟨hvalid, submitted, hsubmit, htold.symm, hhow⟩

/-- Nobody answers the handshake of the first session. The second one joins the node, which turns the job
away, so that it is run here. -/
theorem once_disconnects_polite :
    (once {} {} plainJob [97] {} 5).1 =
        .error (.unreachable (Link.nameEndpoint ({} : Config).host ({} : Config).port)) ∧
      ∃ connected ended, (ofConfig {} Link.polite.env).connect = (true, connected) ∧
        once {} Link.polite.env plainJob [97] {} 5 = (.ok ⟨[97], utf8 "local"⟩, ended.disconnect) ∧
        connected.Uses ended ∧ ended.disconnect.isConnected = false := by
  obtain ⟨hunreachable, _⟩ := once_disconnects {} {} plainJob [97] {} 5
  obtain ⟨_, hreachable⟩ := once_disconnects {} Link.polite.env plainJob [97] {} 5
  have hfailed : (ofConfig {} {}).connect.1 = false := rfl
  have hjoined : (ofConfig {} Link.polite.env).connect.1 = true := rfl
  have hturned : ∃ body, (ofConfig {} Link.polite.env).connect.2.treatment.inTime?
      (ofConfig {} Link.polite.env).connect.2.patience = some (.reply 404 body) :=
    ⟨_, rfl⟩
  constructor
  · obtain ⟨honce, _⟩ := hunreachable _ (Prod.ext hfailed rfl)
    rw [honce]
  · generalize hconnect : (ofConfig {} Link.polite.env).connect = attempt at hjoined hturned
    obtain ⟨_, connected⟩ := attempt
    cases hjoined
    obtain ⟨_, _, _, outcome, ended, honce, hused, _, hapart, _, _, _, _, _, hcases⟩ :=
      hreachable connected hconnect
    refine ⟨connected, ended, rfl, ?_, hused, hapart⟩
    rcases hcases with ⟨hinvalid, _⟩ | ⟨_, submitted, hsubmit, hresult, _⟩
    · exact (hinvalid Options.valid_default).elim
    · have hmanifest := plainJob.validate.value.toManifest_of_valid Options.valid_default [97]
      rw [Definition.validate_manifest] at hmanifest
      obtain ⟨body, hreply⟩ := hturned
      obtain ⟨hsteady, _⟩ := connected_of_connect hconnect
      have htold := result_of_declined hsteady hmanifest (.status 404 body (by decide) hreply) 5
      rw [hsubmit, show submitted.result (plainJob.manifest [97] {}).id 5 = _ from hresult] at htold
      rw [honce, show outcome = .ok ⟨[97], utf8 "local"⟩ from htold]

end Offload.Session
