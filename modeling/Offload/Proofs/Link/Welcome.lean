import Offload.Proofs.Json.Member
import Offload.Proofs.Link.Attempt
import Offload.Proofs.Link.Rest

namespace Offload

/-- The body is a JSON object that names the service. -/
def Service.NamedIn (service : Service) (body : Bytes) : Prop :=
  ∃ members, Json.parse body = .ok (.object members) ∧ service.name ≠ [] ∧
    Fields.get? (utf8 "service") members = some (.string service.name) ∧
    (Json.object members).HasNumber "nodeId" service.nodeId

/-- A reply names a service if it is an object with a name for it and, as far as it has one, a number for
its node. -/
theorem Service.ofReply_eq_ok_iff {reply : Json} {service : Service} :
    Service.ofReply reply = .ok service ↔
      ∃ members, reply = .object members ∧ service.name ≠ [] ∧
        Fields.get? (utf8 "service") members = some (.string service.name) ∧
        (Json.object members).HasNumber "nodeId" service.nodeId := by
  unfold Service.ofReply
  rw [Failure.bind_eq_ok_iff]
  constructor
  · rintro ⟨name, hname, hrest⟩
    obtain ⟨nodeId, hnode, hservice⟩ := Failure.bind_eq_ok_iff.mp hrest
    split at hservice
    · cases hservice
    · next hnamed =>
      cases hservice
      cases reply with
      | object members =>
        refine ⟨members, rfl, hnamed, ?_, Json.fieldD_number_eq_ok_iff.mp hnode⟩
        rcases Json.fieldD_text_eq_ok_iff.mp hname with hmember | ⟨_, hempty⟩
        · exact hmember
        · exact (hnamed hempty).elim
      | null | bool _ | int _ | float _ | string _ | array _ => cases hname
  · rintro ⟨members, rfl, hnamed, hname, hnode⟩
    refine ⟨service.name, Json.fieldD_text_eq_ok_iff.mpr (.inl hname), ?_⟩
    rw [Failure.bind_eq_ok_iff]
    refine ⟨service.nodeId, Json.fieldD_number_eq_ok_iff.mpr hnode, ?_⟩
    rw [if_neg hnamed]
    rfl

theorem Delivery.service_eq_ok_iff {delivery : Delivery} {service : Service} :
    delivery.decode >>= Service.ofReply = .ok service ↔
      ∃ body, delivery = .reply 200 body ∧ service.NamedIn body := by
  rw [Failure.bind_eq_ok_iff]
  constructor
  · rintro ⟨reply, hdecode, hservice⟩
    obtain ⟨body, hreply, hparse⟩ := decode_eq_ok_iff.mp hdecode
    obtain ⟨members, rfl, hnamed⟩ := Service.ofReply_eq_ok_iff.mp hservice
    exact ⟨body, hreply, members, hparse, hnamed⟩
  · rintro ⟨body, hreply, members, hparse, hnamed⟩
    exact ⟨_, decode_eq_ok_iff.mpr ⟨body, hreply, hparse⟩,
      Service.ofReply_eq_ok_iff.mpr ⟨members, rfl, hnamed⟩⟩

namespace Link

variable {link : Link} {account : Account} {loop : Loop} {service : Service}

/-- An attempt to connect that begins now finds the service: the host is found, and the exchange behind
that ends, both within the time allowed, with a reply of status 200 that names the service. -/
def Finds (link : Link) (service : Service) : Prop :=
  ∃ delay body, link.env.takeResolution.1 = .found delay ∧
    link.env.takeScript.1.delivery? = some (.reply 200 body) ∧
    delay + link.env.takeScript.1.pause ≤ link.env.span link.limits.connect ∧ service.NamedIn body

theorem finds_iff (link : Link) (host : Bytes) (service : Service) :
    link.Finds service ↔ ∃ instant, link.env.greeted? host = some (instant, .ok service) ∧
      instant ≤ link.env.clock + link.env.span link.limits.connect := by
  have hscript : link.env.takeResolution.2.takeScript.1 = link.env.takeScript.1 := by
    rw [Environment.takeScript_fst, Environment.takeScript_fst, link.env.takeResolution_eq]
  have hclock : link.env.takeResolution.2.clock = link.env.clock := by rw [link.env.takeResolution_eq]
  unfold Finds Environment.greeted? Environment.lookUp
  cases hresolution : link.env.takeResolution.1 with
  | failure reason delay | silence => simp [hresolution, Environment.greetedFrom?]
  | found delay =>
    simp only [hresolution, hscript, Environment.takeScript_clock, hclock, Option.bind_some,
      Environment.greetedFrom?, Option.map_eq_some_iff, Prod.mk.injEq]
    constructor
    · rintro ⟨_, body, hfound, hreply, hintime, hnamed⟩
      cases hfound
      exact ⟨link.env.clock + delay + link.env.takeScript.1.pause,
        ⟨_, hreply, rfl, Delivery.service_eq_ok_iff.mpr ⟨body, rfl, hnamed⟩⟩, by omega⟩
    · rintro ⟨_, ⟨delivery, hdelivery, rfl, hservice⟩, hle⟩
      obtain ⟨body, rfl, hnamed⟩ := Delivery.service_eq_ok_iff.mp hservice
      exact ⟨delay, body, rfl, hdelivery, by omega, hnamed⟩

theorem stopLoop_of_greeting {host : Bytes} (hlive : link.live = some loop)
    (hgreeting : loop.Greeting host) (hqueue : loop.queue = [])
    (hidle : ∀ other ∈ link.detached, other.turn link.env = none) :
    link.stopLoop = { link with live := none } := by
  obtain ⟨last, hruns, hended⟩ :=
    hgreeting.yielding.runs_out hgreeting.unused.1 hqueue link.env
  let stopped := link.running link.env last
  have hrest : stopped.turn = none := by
    refine turn_eq_none.mpr fun other hmem => ?_
    rcases List.mem_cons.mp hmem with rfl | hmem
    · exact Loop.turn_of_dead hended _
    · exact hidle other hmem
  have hstopped : stopped.isStopped = true := by simp [isStopped, stopped, running, hended]
  have hasked : { link with live := link.live.map Loop.askToStop } =
      link.running link.env loop.askToStop := by
    rw [hlive]
    rfl
  have hwaited : ({ link with live := link.live.map Loop.askToStop } : Link).waitFor link.limits.join
      isStopped = stopped := by
    rw [hasked, waitFor, drive_of_runs hruns]
    exact drive_of_ready hrest hstopped
  simp only [stopLoop]
  rw [hwaited, if_pos hstopped]
  rfl

/-- The link that has done nothing for so long, and is not connected. -/
def idled (link : Link) (milliseconds : Nat) : Link :=
  { link.sleep milliseconds with phase := .disconnected }

/-- An attempt that is given up leaves the link as it would be without the attempt. -/
theorem Attempting.giveUp {greeted : Option (Nat × Except Failure Service)} {host : Bytes} {port : UInt16}
    {spent : Environment} {waited : Link}
    (hattempting : Attempting (link.seeking host port) { link with env := spent } host greeted waited)
    (hlive : link.live = none) (hrest : waited.turn = none) (reason : Entry) :
    ∃ after, waited.giveUp reason = (false, after) ∧ after.phase = .disconnected ∧ after.live = none ∧
      after.env.clock = waited.env.clock ∧
      after.Alike (({ link with env := spent } : Link).idled (after.env.clock - spent.clock)) := by
  obtain ⟨env, quiet, loop, detached, hgreeting, hqueue, _, hpasses, halike⟩ := hattempting
  let waited : Link := { link.seeking host port with env, live := some loop, detached }
  let quietly : Link := { link with env := quiet, detached }
  have hidle : ∀ other ∈ detached, other.turn env = none := fun other hmem =>
    turn_eq_none.mp hrest other (List.mem_cons_of_mem _ hmem)
  have hstopped := @stopLoop_of_greeting (waited.log reason) loop host rfl hgreeting hqueue
    fun other hmem => Loop.turn_eq_none_of_alike (env.log_alike reason).symm (hidle other hmem)
  have hgiven : waited.giveUp reason =
      (false, { waited.log reason with live := none, phase := .disconnected }) := by
    rw [Link.giveUp, hstopped]
  have hslept : ({ link with env := spent } : Link).sleep (env.clock - spent.clock) = quietly := by
    rw [halike.clock]
    exact hpasses.sleep (turn_eq_none_of_apart hlive fun other hmem =>
      Loop.turn_eq_none_of_alike halike (hidle other hmem))
  have hsame : Alike { waited.log reason with live := none, phase := .disconnected }
      { quietly with phase := .disconnected } :=
    ⟨(env.log_alike reason).trans halike, rfl, rfl, hlive.symm, rfl, rfl,
      fun hsome => (Bool.false_ne_true hsome).elim, fun hsome => (Bool.false_ne_true hsome).elim⟩
  rw [← hslept] at hsame
  exact ⟨_, hgiven, rfl, rfl, rfl, hsame⟩

theorem Attempting.welcomed {greeted : Option (Nat × Except Failure Service)} {host : Bytes}
    {opened start waited : Link} {instant : Nat}
    (hattempting : Attempting opened start host greeted waited)
    (hgreeted : greeted = some (instant, .ok service)) (hverdict : waited.verdict.isSome = true) :
    ∃ env loop detached, waited = { opened with env, live := some loop, detached } ∧
      loop.connected = true ∧ loop.service = some service := by
  obtain ⟨env, quiet, loop, detached, _, _, hgreets, _, _⟩ := hattempting
  have hsome : loop.verdict.isSome = true := hverdict
  cases hgreets with
  | resolving _ _ _ hnone | shaking _ _ _ _ _ hnone =>
    rw [hnone] at hsome
    cases hsome
  | ended _ result _ _ hother _ hservice =>
    cases hgreeted.symm.trans hother
    obtain ⟨hconnected, hnamed⟩ := hservice service rfl
    exact ⟨env, loop, detached, rfl, hconnected, hnamed⟩

theorem Finds.unique {other : Service} (hfinds : link.Finds service) (hother : link.Finds other) :
    service = other := by
  obtain ⟨_, hservice, _⟩ := (link.finds_iff [] service).mp hfinds
  obtain ⟨_, hsame, _⟩ := (link.finds_iff [] other).mp hother
  cases hservice.symm.trans hsame
  rfl

theorem Fits.parted (hfits : Fits link account) :
    link.parted.live = none ∧ link.parted.limits = link.limits ∧
      link.parted.env.clock ≤ link.env.clock + link.limits.join.toNat := by
  unfold Link.parted
  rcases hfits.phase_cases with ⟨_, hconnected⟩ | ⟨_, happart, hlive⟩
  · have hclock := link.disconnect_clock
    obtain ⟨env, detached, hdisconnect⟩ := link.disconnect_eq
    rw [if_pos hconnected]
    rw [hdisconnect] at hclock ⊢
    exact ⟨rfl, rfl, hclock⟩
  · rw [if_neg (by simp [happart])]
    exact ⟨hlive, rfl, Nat.le_add_right _ _⟩

theorem Quiet.parted (hquiet : link.Quiet) : link.parted.Quiet := by
  unfold Link.parted
  split
  · exact hquiet.disconnect
  · exact hquiet

/-- The link has no connection, and nothing of one. -/
structure Down (link : Link) : Prop where
  phase : link.phase = .disconnected
  live : link.live = none
  isConnected : link.isConnected = false
  inFlight : link.inFlight = 0

theorem Down.of_apart (hphase : link.phase = .disconnected) (hlive : link.live = none) : link.Down :=
  ⟨hphase, hlive, by simp [Link.isConnected, hphase], by simp [Link.inFlight, hlive]⟩

def hidden : Link where
  env := { polite.env with resolutions := [.failure (utf8 "Host not found")] }

end Link

end Offload
