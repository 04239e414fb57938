import Offload.Proofs.Link.Connection
import Offload.Proofs.Link.InFlight
import Offload.Proofs.Link.Once

namespace Offload

namespace Delivery

/-- The words of a reply that is no success: the text that its body has as the member `error`, or the
status. -/
inductive Words (status : Int) (body : Bytes) : Bytes → Prop
  | told (json : Json) (text : Bytes) (hparse : Json.parse body = .ok json)
    (hmember : json.get? (utf8 "error") = some (.string text)) : Words status body text
  | plain (hnone : ∀ json text, Json.parse body = .ok json →
      json.get? (utf8 "error") ≠ some (.string text)) :
    Words status body (utf8 "HTTP " ++ Bytes.decimalInt status)

theorem decode_of_value {body : Bytes} {json : Json} (hparse : Json.parse body = .ok json) :
    (reply 200 body).decode = .ok json := by
  simp [decode, hparse, Except.toOption]

end Delivery

namespace Loop

variable {loop after : Loop} {env env' : Environment} {service : Service} {id own : Nat}
  {target body : Bytes}

theorem queue_of_rest (halive : loop.alive = true) (hawake : loop.asleep = none)
    (hrest : loop.turn env = none) : loop.queue = [] := by
  cases hqueue : loop.queue with
  | nil => rfl
  | cons task rest =>
    rw [turn_of_task halive hawake hqueue] at hrest
    cases hrest

/-- The loop runs, and of what was posted on it nothing is left but the cancellation of an inquiry. -/
inductive Receptive : Loop → Prop
  | clear (loop : Loop) (halive : loop.alive = true) (hawake : loop.asleep = none)
    (hqueue : loop.queue = []) : Receptive loop
  | cancelling (loop : Loop) (id : Nat) (halive : loop.alive = true) (hawake : loop.asleep = none)
    (hqueue : loop.queue = [.cancel id])
    (hcall : loop.call? id = some { handle := { id, action := some [.abort] } }) : Receptive loop

/-- The cancellation of an inquiry comes before the next one, whose turn it then is: it aborts the
exchange, and leaves the surroundings as they are. -/
theorem turn_of_cancelling (halive : loop.alive = true) (hawake : loop.asleep = none)
    (hcall : loop.call? id = some { handle := { id, action := some [.abort] } })
    (hjoined : loop.Joined service) (hposted : loop.Posted own (.ask target body) [.cancel id] [])
    (env : Environment) :
    ∃ next notices, loop.turn env = some (env, next) ∧ loop.reports env own = [] ∧
      next.alive = true ∧ next.asleep = none ∧ next.Posted own (.ask target body) [] notices ∧
      ∀ task ∈ notices, Notice own task := by
  let task : Task := .start own (.ask target body)
  let next := (setHandle { loop with queue := [task] } { id, cancelled := true }).abort (.call id)
  have hturn : loop.turn env = some (env, next) := by
    have hnamed : call? { loop with queue := [task] } id = _ := hcall
    have hqueue : loop.queue = .cancel id :: [task] := hposted.queue
    rw [turn_of_task halive hawake hqueue, runTask, cancelCall, hnamed]
    rfl
  rcases hposted.turn hjoined hturn with ⟨hnone, _⟩ | ⟨hquiet, left, notices, hnext, hnotices⟩
  · cases hnone
  · cases left with
    | nil => exact ⟨next, notices, hturn, hquiet, halive, hawake, hnext, hnotices⟩
    | cons first rest =>
      have hsame : first = task := by
        have hfirst := hnext.queue
        rw [List.cons_append] at hfirst
        exact (List.cons.inj hfirst).1.symm
      exact (hnext.before first List.mem_cons_self (hsame ▸ rfl)).elim

/-- An inquiry that nothing on its loop keeps from its exchange: it waits for its turn, behind the
cancellation of another inquiry at most, or the exchange has begun. -/
inductive Unhindered (id : Nat) (target body : Bytes) : Loop → Prop
  | behind (loop : Loop) (other : Nat) (halive : loop.alive = true) (hawake : loop.asleep = none)
    (hcall : loop.call? other = some { handle := { id := other, action := some [.abort] } })
    (hposted : loop.Posted id (.ask target body) [.cancel other] []) : Unhindered id target body loop
  | next (loop : Loop) (notices : List Task) (halive : loop.alive = true) (hawake : loop.asleep = none)
    (hposted : loop.Posted id (.ask target body) [] notices)
    (hnotices : ∀ task ∈ notices, Notice id task) : Unhindered id target body loop
  | begun (loop : Loop) (hcalm : loop.Calm id) : Unhindered id target body loop

theorem Receptive.post (hreceptive : loop.Receptive)
    (hposted : (loop.post (.start id (.ask target body))).Posted id (.ask target body) loop.queue []) :
    (loop.post (.start id (.ask target body))).Unhindered id target body := by
  cases hreceptive with
  | clear halive hawake hqueue =>
    rw [hqueue] at hposted
    exact .next _ [] halive hawake hposted (List.forall_mem_nil _)
  | cancelling other halive hawake hqueue hcall =>
    rw [hqueue] at hposted
    exact .behind _ other halive hawake hcall hposted

theorem Unhindered.turn (hunhindered : loop.Unhindered id target body) (hjoined : loop.Joined service)
    (hturn : loop.turn env = some (env', after)) : after.Unhindered id target body := by
  cases hunhindered with
  | behind other halive hawake hcall hposted =>
    obtain ⟨next, notices, hother, _, hstays, hwakes, hnext, hnotices⟩ :=
      turn_of_cancelling halive hawake hcall hjoined hposted env
    cases hother.symm.trans hturn
    exact .next _ notices hstays hwakes hnext hnotices
  | next notices halive hawake hposted hnotices =>
    obtain ⟨_, _, _, hstays, hwakes, hqueue⟩ := hposted.begin halive hawake hturn
    exact .begun _ ⟨hstays, hwakes, hqueue ▸ hnotices⟩
  | begun hcalm => exact .begun _ (hcalm.turn hjoined hturn).1

theorem Unhindered.runs (hunhindered : loop.Unhindered id target body) :
    loop.alive = true ∧ loop.asleep = none := by
  cases hunhindered with
  | behind _ halive hawake | next _ halive hawake => exact ⟨halive, hawake⟩
  | begun hcalm => exact ⟨hcalm.alive, hcalm.awake⟩

end Loop

namespace Link

open Loop

variable {link : Link} {loop : Loop} {account : Account}

/-- How an exchange ends by the deadline, by what was reported of it up to then. -/
def arrivalBy (deadline : Nat) : List (Nat × Report) → Option Delivery
  | (began, .begun script) :: _ => script.inTime? (deadline - began)
  | _ => none

/-- What arrives for an inquiry within the time for it. -/
def arrival? (link : Link) (target body : Bytes) (timeout : Int) : Option Delivery :=
  arrivalBy (link.env.clock + link.env.span timeout)
    ((link.handing (.ask target body)).reportsUntil (link.dispatched + 1)
      (link.env.clock + link.env.span timeout))

theorem Numbered.call_of_arrival (hnumbered : link.Numbered) (hlive : link.live = some loop)
    (target body : Bytes) (timeout : Int) :
    (link.call timeout (.ask target body)).1 =
      ((link.arrival? target body timeout).map Delivery.decode).getD
        (.error (.callTimeout timeout)) := by
  have hanswer := (hnumbered.call_settles hlive timeout (.ask target body)).1
  have htold := hnumbered.inquiry_reports hlive target body
    (Nat.le_add_right link.env.clock (link.env.span timeout))
  rw [hanswer, arrival?]
  rcases htold with htold | ⟨began, script, _, _, htold⟩
  · rw [htold]
    rfl
  · rw [htold, firstCompletion?_exchange, Option.map_map]
    simp only [Function.comp_def, conclude_decode, arrivalBy]

theorem waitFor_queue (link : Link) (milliseconds : Int) (ready : Link → Bool)
    (hlive : (link.waitFor milliseconds ready).live = some loop) (halive : loop.alive = true)
    (hawake : loop.asleep = none) : loop.queue = [] := by
  have hwaited := @drive_waited (fun _ => True) ready (link.env.clock + link.env.span milliseconds)
    (fun _ _ _ _ => trivial) (fun _ _ _ _ _ _ _ => trivial) link trivial
  unfold waitFor at hlive
  generalize link.drive ready (link.env.clock + link.env.span milliseconds) = waited at hwaited hlive
  have hidle : ∀ now : Link, now.turn = none → now.live = some loop → loop.queue = [] :=
    fun now hrest hnow => queue_of_rest halive hawake
      (turn_eq_none.mp hrest loop (List.mem_append_left _ (by simp [hnow])))
  cases hwaited with
  | inTime _ _ hrest => exact hidle _ hrest hlive
  | late now _ hrest => exact hidle now hrest hlive

/-- A loop that runs when an inquiry has its answer has nothing else left to do for it. -/
theorem Numbered.call_receptive (hnumbered : link.Numbered) (hlive : link.live = some loop)
    (target body : Bytes) (timeout : Int) {after : Loop}
    (hafter : (link.call timeout (.ask target body)).2.live = some after)
    (halive : after.alive = true) (hawake : after.asleep = none) : after.Receptive := by
  obtain ⟨service, hjoined⟩ := (hnumbered loop hlive).joined
  obtain ⟨now, hnow, hending, _⟩ := @Numbered.call_keeps link loop (fun _ => True) hnumbered hlive
    trivial (fun _ _ _ _ _ _ _ _ => trivial) (fun _ _ _ _ => trivial) timeout target body
  obtain rfl : now = after := Option.some.inj (hnow.symm.trans hafter)
  rcases call_of_connected hlive hjoined.connected timeout (.ask target body) with
    ⟨outcome, _, hcall⟩ | ⟨hpending, entry, hcall⟩
  · rw [hcall] at hafter
    exact .clear now halive hawake (waitFor_queue _ timeout _ hafter halive hawake)
  · rw [hcall] at hafter
    obtain ⟨waited, hwaited, rfl⟩ := Option.map_eq_some_iff.mp hafter
    have hwaited : (link.awaited timeout (.ask target body)).live = some waited := hwaited
    have hqueue : (waited.post (.cancel (link.dispatched + 1))).queue =
        [.cancel (link.dispatched + 1)] := by
      rw [Loop.post, waitFor_queue _ timeout _ hwaited halive hawake]
      rfl
    rw [outcome?_of_live hwaited] at hpending
    rcases hending with hsilent | hasking
    · exact (hsilent.queue _ (hqueue ▸ List.mem_singleton_self _) rfl).elim
    · cases hasking with
      | posted _ _ front back hposted =>
        have hsame := hposted.queue.symm.trans hqueue
        have hmem : Task.start (link.dispatched + 1) _ ∈ [Task.cancel (link.dispatched + 1)] :=
          hsame ▸ List.mem_append_right _ List.mem_cons_self
        simp at hmem
      | underway _ _ _ _ hcall =>
        exact .cancelling _ _ halive hawake hqueue hcall
      | aborting _ hposted =>
        rw [hqueue] at hposted
        simp at hposted
      | settled houtcome =>
        have hnone : (waited.post (.cancel (link.dispatched + 1))).outcome? (link.dispatched + 1) =
            none := hpending
        rw [hnone] at houtcome
        cases houtcome

theorem arrivalBy_of_posted {id deadline : Nat} {target body : Bytes} {back : List Task}
    (hlive : link.live = some loop) (hposted : loop.Posted id (.ask target body) [] back)
    (halive : loop.alive = true) (hawake : loop.asleep = none) :
    arrivalBy deadline (link.reportsUntil id deadline) =
      link.env.takeScript.1.inTime? (deadline - link.env.clock) := by
  have hturn := turn_of_task halive hawake hposted.queue link.env
  rw [reportsUntil_of_turn (turn_of_live hlive hturn), reports_of_live hlive,
    (hposted.begin halive hawake hturn).1]
  rfl

/-- An inquiry that is about to have its turn has the exchange that the peer treats next. -/
theorem arrivalBy_of_unhindered {id deadline : Nat} {target body : Bytes} {service : Service}
    (hunhindered : loop.Unhindered id target body) (hcalled : ¬ loop.Calm id)
    (hjoined : loop.Joined service) (hlive : link.live = some loop) :
    arrivalBy deadline (link.reportsUntil id deadline) =
      link.env.takeScript.1.inTime? (deadline - link.env.clock) := by
  cases hunhindered with
  | behind other halive hawake hcall hposted =>
    obtain ⟨next, notices, hturn, hquiet, hstays, hwakes, hnext, _⟩ :=
      turn_of_cancelling halive hawake hcall hjoined hposted link.env
    rw [reportsUntil_of_turn (turn_of_live hlive hturn), reports_of_live hlive, hquiet]
    exact arrivalBy_of_posted rfl hnext hstays hwakes
  | next notices halive hawake hposted => exact arrivalBy_of_posted hlive hposted halive hawake
  | begun hcalm => exact (hcalled hcalm).elim

/-- Over a receptive loop an inquiry begins its exchange at once, and then the loop is receptive again. -/
theorem Numbered.call_of_receptive (hnumbered : link.Numbered) (hlive : link.live = some loop)
    (hreceptive : loop.Receptive) (target body : Bytes) (timeout : Int) :
    link.arrival? target body timeout = link.env.takeScript.1.inTime? (link.env.span timeout) ∧
      ∃ after, (link.call timeout (.ask target body)).2.live = some after ∧ after.Receptive := by
  obtain ⟨⟨service, hjoined⟩, hposted⟩ := hnumbered.started hlive (.ask target body)
  have hhanded : (link.handing (.ask target body)).live =
      some (loop.post (.start (link.dispatched + 1) (.ask target body))) := by
    rw [Link.handing, Link.post, hlive]
    rfl
  have hunhindered := hreceptive.post hposted
  constructor
  · have hcalled : ¬ (loop.post (.start (link.dispatched + 1) (.ask target body))).Calm
        (link.dispatched + 1) := by
      intro hcalm
      obtain ⟨_, hstart, _⟩ := hcalm.queue _ (List.mem_append_right _ (List.mem_singleton_self _))
      cases hstart
    have hclock : (link.handing (.ask target body)).env = link.env := rfl
    rw [arrival?, arrivalBy_of_unhindered hunhindered hcalled hjoined hhanded, hclock,
      Nat.add_sub_cancel_left]
  · obtain ⟨env, after, detached, _, hafter, hwait⟩ :=
      @Numbered.waitFor_keeps _ (Unhindered (link.dispatched + 1) target body) _
        (hnumbered.handing _) hhanded hunhindered
        (fun _ _ _ _ _ hjoined hnow hstep => hnow.turn hjoined hstep) timeout
        (fun now => (now.outcome? (link.dispatched + 1)).isSome)
    have hawaited : (link.awaited timeout (.ask target body)).live = some after := by
      rw [awaited, hwait]
    obtain ⟨halive, hawake⟩ := hafter.runs
    obtain ⟨_, hconnected⟩ := (hnumbered loop hlive).joined
    rcases call_of_connected hlive hconnected.connected timeout (.ask target body) with
      ⟨outcome, _, hcall⟩ | ⟨_, entry, hcall⟩
    · have hnow : (link.call timeout (.ask target body)).2.live = some after := by
        rw [hcall]
        exact hawaited
      exact ⟨after, hnow, hnumbered.call_receptive hlive target body timeout hnow halive hawake⟩
    · have hnow : (link.call timeout (.ask target body)).2.live =
          some (after.post (.cancel (link.dispatched + 1))) := by
        rw [hcall, Link.post, Link.log, hawaited]
        rfl
      exact ⟨_, hnow, hnumbered.call_receptive hlive target body timeout hnow halive hawake⟩

theorem live_of_connected (hconnected : link.isConnected = true) : ∃ loop, link.live = some loop := by
  cases hlive : link.live with
  | none => simp [isConnected, hlive] at hconnected
  | some loop => exact ⟨loop, rfl⟩

theorem Numbered.invoke_of_arrival (hnumbered : link.Numbered) (hlive : link.live = some loop)
    (method : Bytes) {params : Json} {body : Bytes} (hbody : params.dump .compact = .ok body)
    (timeout : Int) :
    (link.invoke method params timeout).1 =
      ((link.arrival? (utf8 "/rpc/" ++ method) body timeout).map Delivery.decode).getD
        (.error (.callTimeout timeout)) := by
  rw [← hnumbered.call_of_arrival hlive, Link.invoke, hbody]

end Link

end Offload
