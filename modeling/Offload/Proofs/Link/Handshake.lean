import Offload.Proofs.Link.Joined
import Offload.Proofs.Link.Steady

namespace Offload

/-- The peer answers with a reply that names the service. -/
def Script.Names (script : Script) (service : Service) : Prop :=
  ∃ body reply, script.conduct = .answer 200 body ∧ Json.parse body = .ok reply ∧
    Service.ofReply reply = .ok service

def Script.Delivers (script : Script) (nodeId : UInt64) : Prop :=
  ∃ body reply, script.conduct = .answer 200 body ∧ Json.parse body = .ok reply ∧
    reply.fieldD "nodeId" 0 = (.ok nodeId : Except Failure UInt64)

theorem Script.Names.delivers {script : Script} {service : Service} (hnames : script.Names service) :
    script.Delivers service.nodeId := by
  obtain ⟨body, reply, hconduct, hparse, hservice⟩ := hnames
  refine ⟨body, reply, hconduct, hparse, ?_⟩
  obtain ⟨name, _, hrest⟩ := Failure.bind_eq_ok_iff.mp hservice
  obtain ⟨nodeId, hnode, hnamed⟩ := Failure.bind_eq_ok_iff.mp hrest
  by_cases hempty : name = []
  · subst hempty
    cases hnamed
  · rw [if_neg hempty] at hnamed
    cases hnamed
    exact hnode

theorem Script.names_of_answer {script : Script} {status : Int} {body : Bytes} {service : Service}
    (hconduct : script.conduct = .answer status body)
    (hresult : (Delivery.ofAnswer status body).decode >>= Service.ofReply = .ok service) :
    script.Names service := by
  cases hdecode : (Delivery.ofAnswer status body).decode with
  | error failure =>
    rw [hdecode] at hresult
    cases hresult
  | ok reply =>
    rw [hdecode] at hresult
    obtain ⟨other, hother, hparse⟩ := Delivery.decode_eq_ok_iff.mp hdecode
    rcases Delivery.ofAnswer_cases status body with hreply | ⟨reason, hfailed⟩
    · cases hreply.symm.trans hother
      exact ⟨body, reply, hconduct, hparse, hresult⟩
    · cases hfailed.symm.trans hother

namespace Loop

variable {script : Script} {host : Bytes} {loop after : Loop} {env env' : Environment}

/-- What the attempt to connect has to do with the treatment: it is still ahead, the handshake goes on
under it, or it is over. -/
inductive Hears (script : Script) : Environment → Loop → Prop
  | posted {env : Environment} {loop : Loop} (hqueue : loop.queue = [.connect])
    (hwaits : loop.waits = []) (hverdict : loop.verdict = none)
    (hnext : env.takeScript.1 = script) : Hears script env loop
  | resolving {env : Environment} {loop : Loop} (due : Option Nat) (finding : Except Bytes Script)
    (hqueue : loop.queue = []) (hwaits : loop.waits = [⟨.attempt, due, .resolved finding⟩])
    (hverdict : loop.verdict = none) (hfound : ∀ found, finding = .ok found → found = script) :
    Hears script env loop
  | underway {env : Environment} {loop : Loop} (due : Option Nat) (stage : Stage)
    (target body : Bytes) (hqueue : loop.queue = [])
    (hwaits : loop.waits = [⟨.attempt, due, .stage stage ⟨target, body, script⟩⟩])
    (hverdict : loop.verdict = none) : Hears script env loop
  | ended {env : Environment} {loop : Loop} (hqueue : loop.queue = []) (hwaits : loop.waits = [])
    (hverdict : loop.verdict = some (.ok ()) →
      ∃ service, loop.service = some service ∧ script.Names service) : Hears script env loop

theorem Hears.enter {stage : Stage} {target body : Bytes} (hqueue : loop.queue = [])
    (hwaits : loop.waits = []) (hverdict : loop.verdict = none)
    (henter : enter env loop .attempt stage ⟨target, body, script⟩ = (env', after)) :
    Hears script env' after := by
  rw [Loop.enter, Prod.mk.injEq] at henter
  obtain ⟨henv, rfl⟩ := henter
  rw [henv]
  refine .underway (stageDue env'.clock stage script) stage target body hqueue ?_ hverdict
  rw [Loop.await, hwaits]
  rfl

theorem Hears.beginConnect (hqueue : loop.queue = []) (hwaits : loop.waits = [])
    (hverdict : loop.verdict = none) (hnext : env.takeScript.1 = script) :
    Hears script (beginConnect env loop).1 (beginConnect env loop).2 := by
  refine .resolving env.lookUp.1 env.lookUp.2.1 hqueue ?_ hverdict fun found hfound => ?_
  · simp only [Loop.beginConnect, Loop.await, hwaits, List.nil_append]
  · rw [← hnext]
    exact env.lookUp_found hfound

theorem Hears.deliver (hqueue : loop.queue = []) (hwaits : loop.waits = []) {delivery : Delivery}
    (hnames : ∀ service, delivery.decode >>= Service.ofReply = .ok service → script.Names service) :
    Hears script env (loop.deliver .attempt delivery) := by
  rw [Loop.deliver]
  cases hresult : delivery.decode >>= Service.ofReply with
  | ok service => exact .ended hqueue hwaits fun _ => ⟨service, rfl, hnames service hresult⟩
  | error failure => exact .ended hqueue hwaits fun hother => by cases hother

theorem Hears.stage {stage : Stage} {target body : Bytes} (hqueue : loop.queue = [])
    (hwaits : loop.waits = []) (hverdict : loop.verdict = none)
    (hfire : fire env loop .attempt (.stage stage ⟨target, body, script⟩) = (env', after)) :
    Hears script env' after := by
  rw [Loop.fire] at hfire
  split at hfire
  · cases hfire
    exact .deliver hqueue hwaits fun service hresult => by cases hresult
  · split at hfire
    · exact .enter hqueue hwaits hverdict hfire
    · exact .enter hqueue hwaits hverdict hfire
    · next hconduct _ =>
      cases hfire
      exact .deliver hqueue hwaits fun service hresult => Script.names_of_answer hconduct hresult
    · cases hfire
      exact .deliver hqueue hwaits fun service hresult => by cases hresult
    · cases hfire
      refine .ended hqueue hwaits fun hother => ?_
      rw [hverdict] at hother
      cases hother

/-- Whatever the loop does next, its attempt to connect keeps to the treatment. -/
theorem Hears.turn (hhears : Hears script env loop) (hgreeting : Greeting host loop)
    (hturn : loop.turn env = some (env', after)) : Hears script env' after := by
  have ⟨halive, hawake, _, _⟩ := hgreeting.unused
  cases hhears with
  | posted hqueue hwaits hverdict hnext =>
    rw [turn_of_task halive hawake hqueue, runTask, Option.some.injEq] at hturn
    have hbegun := @Hears.beginConnect script { loop with queue := [] } env rfl hwaits hverdict hnext
    rw [hturn] at hbegun
    exact hbegun
  | resolving due finding hqueue hwaits hverdict hfound =>
    rw [turn_of_no_task halive hawake hqueue, hwaits] at hturn
    obtain ⟨⟨wait, others⟩, htake, hfire⟩ := Option.map_eq_some_iff.mp hturn
    obtain ⟨rfl, rfl, _⟩ := takeDue_singleton htake
    cases finding with
    | ok found =>
      obtain rfl := hfound found rfl
      exact @Hears.enter _ { loop with waits := [] } _ _ _ .connect _ _ hqueue rfl hverdict hfire
    | error reason =>
      cases hfire
      exact .ended hqueue rfl fun hother => by cases hother
  | underway due stage target body hqueue hwaits hverdict =>
    rw [turn_of_no_task halive hawake hqueue, hwaits] at hturn
    obtain ⟨⟨wait, others⟩, htake, hfire⟩ := Option.map_eq_some_iff.mp hturn
    obtain ⟨rfl, rfl, _⟩ := takeDue_singleton htake
    exact @Hears.stage _ { loop with waits := [] } _ _ _ _ _ _ hqueue rfl hverdict hfire
  | ended hqueue hwaits =>
    rw [turn_of_no_task halive hawake hqueue, hwaits] at hturn
    cases hturn

theorem Hears.idle (hhears : Hears script env loop) (hgreeting : Greeting host loop)
    (hrest : loop.turn env = none) (env' : Environment) : Hears script env' loop := by
  have ⟨halive, hawake, _, _⟩ := hgreeting.unused
  cases hhears with
  | posted hqueue =>
    rw [turn_of_task halive hawake hqueue] at hrest
    cases hrest
  | resolving due finding hqueue hwaits hverdict hfound =>
    exact .resolving due finding hqueue hwaits hverdict hfound
  | underway due stage target body hqueue hwaits hverdict =>
    exact .underway due stage target body hqueue hwaits hverdict
  | ended hqueue hwaits hverdict => exact .ended hqueue hwaits hverdict

theorem Hears.joined (hhears : Hears script env loop) (hgreeting : Greeting host loop)
    (hverdict : loop.verdict = some (.ok ())) :
    ∃ service, loop.Joined service ∧ script.Names service := by
  cases hhears with
  | posted _ _ hother | resolving _ _ _ _ hother | underway _ _ _ _ _ _ hother =>
    rw [hother] at hverdict
    cases hverdict
  | ended hqueue hwaits hnamed =>
    obtain ⟨service, hservice, hnames⟩ := hnamed hverdict
    have hserving : loop.Serving 0 [] [] := (hgreeting.welcome hverdict).1
    refine ⟨service, ⟨hserving.connected, hservice, ?_, ?_⟩, hnames⟩
    · rw [hqueue]
      exact List.forall_mem_nil _
    · rw [hwaits]
      exact List.forall_mem_nil _

end Loop

end Offload
