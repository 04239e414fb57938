import Offload.Proofs.Link.Serving

namespace Offload

namespace Script

/-- The peer answers in the end. -/
def answers (script : Script) : Bool :=
  match script.conduct with
  | .answer _ _ => true
  | .failure _ | .silence => false

/-- The stage at which the exchange ends, or sticks for good. -/
def last (script : Script) : Stage := if script.answers then .read else script.stage

/-- The exchange comes as far as the given stage. -/
def reaches (script : Script) : Stage → Bool
  | .connect => true
  | .write => script.last ≠ .connect
  | .read => script.last = .read

/-- How long the stages before the given one take. -/
def before (script : Script) : Stage → Nat
  | .connect => 0
  | .write => script.connectDelay
  | .read => script.connectDelay + script.writeDelay

def pause (script : Script) : Nat := script.before script.last + script.lag script.last

/-- How the exchange ends, if it ever does. -/
def delivery? (script : Script) : Option Delivery :=
  match script.conduct with
  | .answer status body => some (.ofAnswer status body)
  | .failure reason => some (.failed reason)
  | .silence => none

/-- How the exchange ends within the given time. -/
def inTime? (script : Script) (patience : Nat) : Option Delivery :=
  if script.pause ≤ patience then script.delivery? else none

def sends (script : Script) (patience : Nat) : Bool :=
  script.reaches .write && script.connectDelay ≤ patience

/-- What a call with the given timeout makes of the exchange, for which it has so much time. -/
def result (script : Script) (patience : Nat) (timeout : Int) : Except Failure Json :=
  match script.inTime? patience with
  | some delivery => delivery.decode
  | none => .error (.callTimeout timeout)

def wait (script : Script) (patience : Nat) : Nat :=
  if (script.inTime? patience).isSome then script.pause else patience

theorem reaches_last (script : Script) : script.reaches script.last = true := by
  cases hlast : script.last <;> simp [reaches, hlast]

theorem before_add_lag_le_pause {script : Script} {stage : Stage}
    (hreaches : script.reaches stage = true) :
    script.before stage + script.lag stage ≤ script.pause := by
  unfold pause
  cases stage <;> cases hlast : script.last <;>
    simp only [reaches, hlast, before, lag, reduceCtorEq, ne_eq, not_true_eq_false, decide_false,
      Bool.false_eq_true] at hreaches ⊢ <;> omega

theorem before_le_pause {script : Script} {stage : Stage} (hreaches : script.reaches stage = true) :
    script.before stage ≤ script.pause :=
  Nat.le_trans (Nat.le_add_right _ _) (before_add_lag_le_pause hreaches)

end Script

theorem Delivery.decode_eq_ok_iff {delivery : Delivery} {json : Json} :
    delivery.decode = .ok json ↔
      ∃ body, delivery = .reply 200 body ∧ Json.parse body = .ok json := by
  cases delivery with
  | aborted => simp [decode]
  | failed reason => simp [decode]
  | reply status body =>
    by_cases hstatus : status = 200
    · subst hstatus
      cases hparse : Json.parse body with
      | ok value => simp [decode, hparse, Except.toOption]
      | error fault => simp [decode, hparse, Except.toOption]
    · simp [decode, hstatus]

theorem Script.result_eq_ok_iff {script : Script} {patience : Nat} {timeout : Int} {json : Json} :
    script.result patience timeout = .ok json ↔
      ∃ body, script.inTime? patience = some (.reply 200 body) ∧ Json.parse body = .ok json := by
  cases hend : script.inTime? patience with
  | none => simp [result, hend]
  | some delivery => simp [result, hend, Delivery.decode_eq_ok_iff]

theorem Delivery.ofAnswer_cases (status : Int) (body : Bytes) :
    ofAnswer status body = .reply status body ∨ ∃ reason, ofAnswer status body = .failed reason := by
  unfold ofAnswer
  split
  · exact .inr ⟨_, rfl⟩
  · exact .inl rfl

theorem Script.inTime?_ne_aborted (script : Script) (patience : Nat) :
    script.inTime? patience ≠ some .aborted := by
  unfold inTime? delivery?
  split
  · split
    · next status body _ =>
      rcases Delivery.ofAnswer_cases status body with h | ⟨_, h⟩ <;> simp [h]
    · simp
    · simp
  · simp

theorem Script.sends_of_reply {script : Script} {patience : Nat} {status : Int} {body : Bytes}
    (hreply : script.inTime? patience = some (.reply status body)) : script.sends patience = true := by
  unfold inTime? at hreply
  split at hreply
  · next hquick =>
    have hanswers : script.answers = true := by
      cases hconduct : script.conduct with
      | answer _ _ => simp [answers, hconduct]
      | failure _ | silence => simp [delivery?, hconduct] at hreply
    have hreaches : script.reaches .write = true := by simp [reaches, last, hanswers]
    have hconnected : script.connectDelay ≤ script.pause := before_le_pause hreaches
    simp only [sends, hreaches, Bool.true_and, decide_eq_true_eq]
    omega
  · cases hreply

/-- The stage behind a stage. -/
def Stage.next? : Stage → Option Stage
  | .connect => some .write
  | .write => some .read
  | .read => none

namespace Environment

def atStage (env : Environment) (request : Request) (stage : Stage) : Environment :=
  if stage = .connect then env.takeScript.2 else env.takeScript.2.send request

theorem takeScript_clock (env : Environment) : env.takeScript.2.clock = env.clock := by
  rw [takeScript_eq]

theorem takeScript_requests (env : Environment) : env.takeScript.2.requests = env.requests := by
  rw [takeScript_eq]

theorem atStage_clock (env : Environment) (request : Request) (stage : Stage) :
    (env.atStage request stage).clock = env.clock := by
  unfold atStage
  split <;> exact env.takeScript_clock

theorem atStage_setClock (env : Environment) (request : Request) (stage : Stage) :
    { env.atStage request stage with clock := env.clock } = env.atStage request stage := by
  rw [← env.atStage_clock request stage]

/-- The surroundings after an exchange with the given request, for which there is so much time. The
request is not sent if connecting fails or takes longer. -/
def exchanged (env : Environment) (request : Request) (patience : Nat) : Environment :=
  env.atStage request (if env.takeScript.1.sends patience then .write else .connect)

theorem atStage_eq_exchanged {env : Environment} {request : Request} {patience : Nat} {stage : Stage}
    (hsent : stage ≠ .connect → env.takeScript.1.sends patience = true)
    (hends : stage = .connect → env.takeScript.1.sends patience = false) :
    env.atStage request stage = env.exchanged request patience := by
  unfold exchanged
  by_cases hstage : stage = .connect
  · simp [hends hstage, hstage]
  · simp [hsent hstage, atStage, hstage]

/-- An exchange that comes to a stage behind the first one in time has sent its request. -/
theorem sends_of_reaches {script : Script} {patience : Nat} {stage : Stage}
    (hreaches : script.reaches stage = true) (hentered : script.before stage ≤ patience)
    (hstage : stage ≠ .connect) : script.sends patience = true := by
  have hwrite : script.reaches .write = true := by
    cases stage with
    | connect => exact (hstage rfl).elim
    | write => exact hreaches
    | read =>
      have hlast : script.last = .read := by simpa [Script.reaches] using hreaches
      simp [Script.reaches, hlast]
  have hconnected : script.connectDelay ≤ patience := by
    cases stage with
    | connect => exact (hstage rfl).elim
    | write => exact hentered
    | read => exact Nat.le_trans (Nat.le_add_right _ _) hentered
  simp [Script.sends, hwrite, hconnected]

theorem atStage_last {env : Environment} {request : Request} {patience : Nat}
    (hpatience : env.takeScript.1.pause ≤ patience) :
    env.atStage request env.takeScript.1.last = env.exchanged request patience := by
  have hreaches := env.takeScript.1.reaches_last
  have hentered := Nat.le_trans (Script.before_le_pause hreaches) hpatience
  refine atStage_eq_exchanged (sends_of_reaches hreaches hentered) fun hconnect => ?_
  simp [Script.sends, Script.reaches, hconnect]

theorem atStage_of_slow {env : Environment} {request : Request} {patience : Nat} {stage : Stage}
    (hreaches : env.takeScript.1.reaches stage = true)
    (hentered : env.takeScript.1.before stage ≤ patience)
    (hslow : env.takeScript.1.stage = stage ∧ env.takeScript.1.conduct = .silence ∨
      patience < env.takeScript.1.before stage + env.takeScript.1.lag stage) :
    env.atStage request stage = env.exchanged request patience := by
  refine atStage_eq_exchanged (sends_of_reaches hreaches hentered) ?_
  rintro rfl
  rcases hslow with ⟨hstage, hconduct⟩ | hlate
  · simp [Script.sends, Script.reaches, Script.last, Script.answers, hconduct, hstage]
  · simp only [Script.before, Script.lag, Nat.zero_add] at hlate
    simp [Script.sends, hlate]

theorem exchanged_requests (env : Environment) (request : Request) (patience : Nat) :
    (env.exchanged request patience).requests =
      if env.takeScript.1.sends patience then request :: env.requests else env.requests := by
  have hrequests := env.takeScript_requests
  unfold exchanged atStage
  cases env.takeScript.1.sends patience with
  | true => simp [send, hrequests]
  | false => simp [hrequests]

end Environment

namespace Loop

variable {loop after : Loop} {env env' : Environment} {id last : Nat}

def begun (loop : Loop) (id : Nat) : Loop :=
  setHandle { loop with calls := loop.calls ++ [{ handle := { id } }] }
    { id, action := some [.abort] }

theorem begun_call? (hfresh : loop.call? id = none) (other : Nat) :
    (loop.begun id).call? other =
      if other = id then some { handle := { id, action := some [.abort] } } else loop.call? other := by
  have hstarted := @call?_of_calls_append { loop with calls := loop.calls ++ [{ handle := { id } }] }
    { handle := { id } } loop.calls rfl other
  rw [begun, call?_setHandle, hstarted]
  by_cases hother : other = id
  · subst hother
    have hnone : loop.calls.find? (fun call => decide (call.handle.id = other)) = none := hfresh
    simp [hnone]
  · have hne : ¬id = other := fun h => hother h.symm
    simp only [hne, if_false, Option.or_none, hother]
    exact Option.map_id'

theorem runTask_ask (hfresh : loop.call? id = none) (env : Environment) (target body : Bytes) :
    runTask env loop (.start id (Operation.ask target body)) =
      beginExchange env (loop.begun id) (.call id) target body := by
  have hstarted := @call?_of_calls_append { loop with calls := loop.calls ++ [{ handle := { id } }] }
    { handle := { id } } loop.calls rfl id
  have hnone : loop.calls.find? (fun call => decide (call.handle.id = id)) = none := hfresh
  rw [hnone] at hstarted
  simp only [Option.none_or, if_true] at hstarted
  simp only [runTask, Operation.ask, perform, onCancel, hstarted, Handle.onCancel, react,
    Bool.false_eq_true, if_false, Option.getD_none]
  rfl

theorem stageDue_eq_some {clock due : Nat} {stage : Stage} {script : Script} :
    stageDue clock stage script = some due ↔
      ¬(script.stage = stage ∧ script.conduct = .silence) ∧ due = clock + script.lag stage := by
  unfold stageDue
  split
  · next hsilent => simp [hsilent]
  · next hlively =>
    rw [Option.some.injEq, and_iff_right hlively]
    exact eq_comm

/-- An exchange that goes on from a stage enters the next one. -/
private theorem fire_passed {stage : Stage} {exchange : Exchange}
    (hreaches : exchange.script.reaches stage = true) (hlast : exchange.script.last ≠ stage)
    (hpasses : exchange.script.stage = stage → exchange.script.answers = true) (env : Environment)
    (loop : Loop) (owner : Owner) :
    ∃ next, stage.next? = some next ∧ exchange.script.reaches next = true ∧
      exchange.script.before next = exchange.script.before stage + exchange.script.lag stage ∧
      fire env loop owner (.stage stage exchange) = enter env loop owner next exchange := by
  have hfire : ∀ next, stage.next? = some next →
      fire env loop owner (.stage stage exchange) = enter env loop owner next exchange := by
    intro next hnext
    by_cases hstage : exchange.script.stage = stage
    · have hanswers := hpasses hstage
      cases hconduct : exchange.script.conduct with
      | answer status body => cases stage <;> cases hnext <;> simp [fire, hconduct]
      | failure _ | silence => simp [Script.answers, hconduct] at hanswers
    · cases stage <;> cases hnext <;> simp [fire, hstage]
  cases stage with
  | connect => exact ⟨.write, rfl, by simp [Script.reaches, hlast], (Nat.zero_add _).symm, hfire _ rfl⟩
  | write =>
    refine ⟨.read, rfl, ?_, rfl, hfire _ rfl⟩
    cases hstage : exchange.script.last with
    | connect => simp [Script.reaches, hstage] at hreaches
    | write => exact (hlast hstage).elim
    | read => simp [Script.reaches, hstage]
  | read => exact (hlast (by simpa [Script.reaches] using hreaches)).elim

/-- A stage that is over leads to the end of the exchange, or at once to the next stage. -/
theorem fire_stage {stage : Stage} {exchange : Exchange}
    (hreaches : exchange.script.reaches stage = true)
    (hlively : ¬(exchange.script.stage = stage ∧ exchange.script.conduct = .silence))
    (env : Environment) (loop : Loop) (owner : Owner) :
    (∃ delivery, exchange.script.delivery? = some delivery ∧ exchange.script.last = stage ∧
        fire env loop owner (.stage stage exchange) = (env, loop.deliver owner delivery)) ∨
      ∃ next, stage.next? = some next ∧ exchange.script.reaches next = true ∧
        exchange.script.before next = exchange.script.before stage + exchange.script.lag stage ∧
        fire env loop owner (.stage stage exchange) = enter env loop owner next exchange := by
  by_cases hlast : exchange.script.last = stage
  · cases hconduct : exchange.script.conduct with
    | answer status body =>
      have hread : stage = .read := by simpa [Script.last, Script.answers, hconduct, eq_comm] using hlast
      subst hread
      refine .inl ⟨.ofAnswer status body, ?_, hlast, ?_⟩
      · simp [Script.delivery?, hconduct]
      · simp [fire, hconduct]
    | failure reason =>
      have hstage : exchange.script.stage = stage := by
        simpa [Script.last, Script.answers, hconduct] using hlast
      refine .inl ⟨.failed reason, ?_, hlast, ?_⟩
      · simp [Script.delivery?, hconduct]
      · simp [fire, hstage, hconduct]
    | silence =>
      have hstage : exchange.script.stage = stage := by
        simpa [Script.last, Script.answers, hconduct] using hlast
      exact (hlively ⟨hstage, hconduct⟩).elim
  · have hpasses : exchange.script.stage = stage → exchange.script.answers = true := by
      rintro rfl
      cases hanswers : exchange.script.answers with
      | true => rfl
      | false => simp [Script.last, hanswers] at hlast
    exact .inr (fire_passed hreaches hlast hpasses env loop owner)

def asked (last : Nat) (outcome : Option (Except Failure Json)) : Call :=
  { handle := { id := last + 1, action := some [.abort] }, outcome }

def Asks (loop : Loop) (last : Nat) (outcome : Option (Except Failure Json)) : Prop :=
  ∀ id, last < id → loop.call? id = if id = last + 1 then some (asked last outcome) else none

/-- A call that asks the peer, from the surroundings in which it was posted: it waits for its turn, or
its exchange is at a stage, or it has its outcome. -/
inductive Asked (start : Environment) (request : Request) (patience last : Nat) :
    Environment → Loop → Prop
  | posted (loop : Loop) (hhost : loop.host = request.host)
    (hserving : loop.Serving last [.start (last + 1) (Operation.ask request.target request.body)] [])
    (hfresh : ∀ id, last < id → loop.call? id = none) : Asked start request patience last start loop
  | underway (loop : Loop) (stage : Stage) (clock : Nat) (hhost : loop.host = request.host)
    (hreaches : start.takeScript.1.reaches stage = true)
    (hserving : loop.Serving last [] [⟨.call (last + 1),
      stageDue (start.clock + start.takeScript.1.before stage) stage start.takeScript.1,
      .stage stage ⟨request.target, request.body, start.takeScript.1⟩⟩])
    (hasks : loop.Asks last none)
    (hclock : clock = start.clock + start.takeScript.1.before stage ∨
      stageDue (start.clock + start.takeScript.1.before stage) stage start.takeScript.1 = some clock)
    (hle : clock ≤ start.clock + patience) :
    Asked start request patience last { start.atStage request stage with clock } loop
  | settled (loop : Loop) (delivery : Delivery) (hhost : loop.host = request.host)
    (hdelivery : start.takeScript.1.delivery? = some delivery)
    (hpatience : start.takeScript.1.pause ≤ patience) (hserving : loop.Serving last [] [])
    (hasks : loop.Asks last (some delivery.decode)) :
    Asked start request patience last
      { start.exchanged request patience with clock := start.clock + start.takeScript.1.pause } loop

theorem Asks.begun (hfresh : ∀ id, last < id → loop.call? id = none) :
    (loop.begun (last + 1)).Asks last none := by
  intro id hlater
  rw [begun_call? (hfresh (last + 1) (by omega)), hfresh id hlater]
  rfl

theorem Asks.settle (hasks : loop.Asks last none) (outcome : Except Failure Json) :
    (loop.settle (last + 1) outcome).Asks last (some outcome) := by
  intro id hlater
  rw [call?_settle, hasks id hlater]
  by_cases hid : id = last + 1
  · simp [hid, asked]
  · simp [hid]

theorem Serving.begun {posted : List Task} {awaited : List Wait}
    (hserving : loop.Serving last posted awaited)
    (hfresh : ∀ id, last < id → loop.call? id = none) :
    (loop.begun (last + 1)).Serving last posted awaited := by
  have hcalls := begun_call? (hfresh (last + 1) (by omega))
  refine hserving.of_calls ?_ ?_
  · intro id call hcall
    have hfound := (hcalls id).symm.trans hcall
    split at hfound
    · cases hfound
      exact .inr rfl
    · exact hserving.mild id call hfound
  · intro id hle
    refine (hcalls id).trans (if_neg ?_)
    omega

theorem beginExchange_eq (env : Environment) (loop : Loop) (owner : Owner) (target body : Bytes) :
    beginExchange env loop owner target body =
      enter env.takeScript.2 loop owner .connect ⟨target, body, env.takeScript.1⟩ := rfl

section Asked

variable {start : Environment} {request : Request} {patience : Nat} {stage : Stage}

theorem Asked.enter (hhost : loop.host = request.host)
    (hreaches : start.takeScript.1.reaches stage = true) (hserving : loop.Serving last [] [])
    (hasks : loop.Asks last none) (hle : start.takeScript.1.before stage ≤ patience)
    (hsent : (if stage = .write then env.send request else env) =
      { start.atStage request stage with clock := start.clock + start.takeScript.1.before stage })
    (henter : enter env loop (.call (last + 1)) stage
      ⟨request.target, request.body, start.takeScript.1⟩ = (env', after)) :
    Asked start request patience last env' after := by
  have hrequest : (⟨loop.host, request.target, request.body⟩ : Request) = request := by rw [hhost]
  simp only [Loop.enter, hrequest, hsent, Prod.mk.injEq] at henter
  obtain ⟨rfl, rfl⟩ := henter
  exact .underway _ stage _ hhost hreaches (hserving.await (Nat.lt_succ_self last) _ _) hasks
    (.inl rfl) (Nat.add_le_add_left hle _)

/-- The stage of an asked call's exchange ends. -/
private theorem Asked.fire {clock due : Nat} (hhost : loop.host = request.host)
    (hreaches : start.takeScript.1.reaches stage = true) (hserving : loop.Serving last [] [])
    (hasks : loop.Asks last none) (hclock : clock = due) (hle : clock ≤ start.clock + patience)
    (hdue : stageDue (start.clock + start.takeScript.1.before stage) stage start.takeScript.1 = some due)
    (hfire : fire { start.atStage request stage with clock } loop (.call (last + 1))
      (.stage stage ⟨request.target, request.body, start.takeScript.1⟩) = (env', after)) :
    Asked start request patience last env' after := by
  obtain ⟨hlively, hlater⟩ := stageDue_eq_some.mp hdue
  have hcases := @fire_stage stage ⟨request.target, request.body, start.takeScript.1⟩ hreaches hlively
    { start.atStage request stage with clock } loop (.call (last + 1))
  rw [hfire] at hcases
  rcases hcases with ⟨delivery, hdelivery, hlast, hdeliver⟩ | ⟨next, hnext, hgoes, hbefore, henter⟩
  · obtain ⟨rfl, rfl⟩ := Prod.mk.inj hdeliver
    have hlast : start.takeScript.1.last = stage := hlast
    have hpause : clock = start.clock + start.takeScript.1.pause := by
      rw [Script.pause, hlast]
      omega
    have hpatience : start.takeScript.1.pause ≤ patience := by omega
    have hsent : start.atStage request stage = start.exchanged request patience := by
      rw [← hlast]
      exact Environment.atStage_last hpatience
    rw [hsent, hpause]
    exact .settled _ delivery hhost hdelivery hpatience (hserving.settle (Nat.lt_succ_self last) _)
      (hasks.settle _)
  · have hbefore : start.takeScript.1.before next =
        start.takeScript.1.before stage + start.takeScript.1.lag stage := hbefore
    have hnow : clock = start.clock + start.takeScript.1.before next := by omega
    subst hnow
    refine Asked.enter hhost hgoes hserving hasks (Nat.le_of_add_le_add_left hle) ?_ henter.symm
    cases stage <;> cases hnext <;> rfl

/-- Whatever the loop does next, an asked call stays on its way. -/
theorem Asked.turn (hasked : Asked start request patience last env loop)
    (hturn : loop.turn env = some (env', after)) : Asked start request patience last env' after := by
  cases hasked with
  | posted loop hhost hserving hfresh =>
    rcases hserving.turn hturn with ⟨rfl, hafter, hsame, hcalls⟩ |
        ⟨task, tasks, rest, hposted, hrest, hrun⟩ | ⟨_, _, hposted, _⟩
    · refine .posted after (hsame.trans hhost) hafter fun id hlater => ?_
      rw [hcalls id hlater]
      exact hfresh id hlater
    · cases hposted
      have hnew : ∀ id, last < id → call? { loop with queue := rest } id = none := hfresh
      rw [runTask_ask (hnew (last + 1) (Nat.lt_succ_self last)), beginExchange_eq] at hrun
      have hfreed : (begun { loop with queue := rest } (last + 1)).host = request.host := hhost
      refine Asked.enter hfreed rfl (hrest.begun hnew) (Asks.begun hnew) (Nat.zero_le _) ?_ hrun
      exact (env.atStage_setClock request .connect).symm
    · cases hposted
  | underway loop stage clock hhost hreaches hserving hasks hclock hle =>
    rcases hserving.turn hturn with ⟨rfl, hafter, hsame, hcalls⟩ | ⟨_, _, _, hposted, _⟩ |
        ⟨wait, others, _, hqueue, _, htake, hfire⟩
    · refine .underway after stage clock (hsame.trans hhost) hreaches hafter (fun id hlater => ?_) hclock
        hle
      rw [hcalls id hlater]
      exact hasks id hlater
    · cases hposted
    · obtain ⟨rfl, rfl, due, hdue, hpast⟩ := takeDue_singleton htake
      have hdue : stageDue (start.clock + start.takeScript.1.before stage) stage start.takeScript.1 =
          some due := hdue
      have hpast : due ≤ clock := hpast
      have hnow : clock = due := by
        rcases hclock with h | h
        · obtain ⟨_, hlater⟩ := stageDue_eq_some.mp hdue
          omega
        · exact Option.some.inj (h.symm.trans hdue)
      have hcleared : host { loop with waits := [] } = request.host := hhost
      exact Asked.fire hcleared hreaches hserving.clear hasks hnow hle hdue hfire
  | settled loop delivery hhost hdelivery hpatience hserving hasks =>
    rcases hserving.turn hturn with ⟨rfl, hafter, hsame, hcalls⟩ | ⟨_, _, _, hposted, _⟩ |
        ⟨_, _, _, _, _, htake, _⟩
    · refine .settled after delivery (hsame.trans hhost) hdelivery hpatience hafter
        fun id hlater => ?_
      rw [hcalls id hlater]
      exact hasks id hlater
    · cases hposted
    · cases htake

theorem Asked.wake {due : Nat} (hasked : Asked start request patience last env loop)
    (hrest : loop.turn env = none) (hdue : loop.nextDue = some due)
    (hle : due ≤ start.clock + patience) :
    Asked start request patience last { env with clock := due } loop := by
  cases hasked with
  | posted loop hhost hserving hfresh =>
    obtain ⟨hposted, _⟩ := hserving.rest hrest
    cases hposted
  | underway loop stage clock hhost hreaches hserving hasks hclock _ =>
    obtain ⟨_, _, _, _, hnext⟩ := hserving.rest hrest
    rw [hdue, soonest_singleton] at hnext
    exact .underway loop stage due hhost hreaches hserving hasks (.inr hnext.symm) hle
  | settled loop delivery hhost hdelivery hpatience hserving hasks =>
    obtain ⟨_, _, _, _, hnext⟩ := hserving.rest hrest
    rw [hdue] at hnext
    cases hnext

theorem Asks.outcome? {outcome : Option (Except Failure Json)} (hasks : loop.Asks last outcome) :
    loop.outcome? (last + 1) = outcome := by
  rw [Loop.outcome?, hasks (last + 1) (Nat.lt_succ_self last), if_pos rfl]
  rfl

theorem Asks.fresh {outcome : Option (Except Failure Json)} (hasks : loop.Asks last outcome)
    (id : Nat) (hlater : last + 1 < id) : loop.call? id = none := by
  rw [hasks id (by omega), if_neg (by omega)]

theorem Asked.of_outcome {outcome : Except Failure Json}
    (hasked : Asked start request patience last env loop)
    (houtcome : loop.outcome? (last + 1) = some outcome) :
    ∃ delivery, start.takeScript.1.delivery? = some delivery ∧
      start.takeScript.1.pause ≤ patience ∧ outcome = delivery.decode ∧
      env = { start.exchanged request patience with
        clock := start.clock + start.takeScript.1.pause } ∧
      loop.host = request.host ∧ loop.Serving (last + 1) [] [] ∧
      ∀ id, last + 1 < id → loop.call? id = none := by
  cases hasked with
  | posted loop hhost hserving hfresh =>
    rw [Loop.outcome?, hfresh (last + 1) (Nat.lt_succ_self last)] at houtcome
    cases houtcome
  | underway loop stage clock hhost hreaches hserving hasks hclock _ =>
    rw [hasks.outcome?] at houtcome
    cases houtcome
  | settled loop delivery hhost hdelivery hpatience hserving hasks =>
    rw [hasks.outcome?] at houtcome
    cases houtcome
    exact ⟨delivery, hdelivery, hpatience, rfl, rfl, hhost,
      hserving.advance (Nat.le_succ last) (by simp) (by simp), hasks.fresh⟩

/-- An asked call that cannot be waited for any longer has an exchange that does not end in time. -/
theorem Asked.of_late (hasked : Asked start request patience last env loop)
    (hrest : loop.turn env = none) (hpending : loop.outcome? (last + 1) = none)
    (hdue : ∀ due, loop.nextDue = some due → start.clock + patience < due) :
    (start.takeScript.1.pause ≤ patience → start.takeScript.1.delivery? = none) ∧
      (∃ clock, env = { start.exchanged request patience with clock }) ∧
      loop.host = request.host ∧ (loop.post (.cancel (last + 1))).Serving (last + 1) [] [] ∧
      ∀ id, last + 1 < id → loop.call? id = none := by
  cases hasked with
  | posted loop hhost hserving hfresh =>
    obtain ⟨hposted, _⟩ := hserving.rest hrest
    cases hposted
  | underway loop stage clock hhost hreaches hserving hasks hclock hle =>
    obtain ⟨_, _, _, _, hnext⟩ := hserving.rest hrest
    rw [soonest_singleton] at hnext
    -- An exchange that is not over by then sticks at its stage, or the stage ends too late.
    have hslow : start.takeScript.1.stage = stage ∧ start.takeScript.1.conduct = .silence ∨
        patience < start.takeScript.1.before stage + start.takeScript.1.lag stage := by
      by_cases hlively : start.takeScript.1.stage = stage ∧ start.takeScript.1.conduct = .silence
      · exact .inl hlively
      · have hlate := hdue _ (hnext.trans (stageDue_eq_some.mpr ⟨hlively, rfl⟩))
        exact .inr (by omega)
    have hentered : start.takeScript.1.before stage ≤ patience := by
      rcases hclock with h | h
      · omega
      · obtain ⟨_, hlater⟩ := stageDue_eq_some.mp h
        omega
    have hsame : start.atStage request stage = start.exchanged request patience :=
      Environment.atStage_of_slow hreaches hentered hslow
    have hready : loop.Abortable (last + 1) :=
      ⟨asked last none, by rw [hasks (last + 1) (Nat.lt_succ_self last), if_pos rfl], rfl, rfl⟩
    have hcancelled := hserving.post (.cancel (last + 1)) (by simp [Task.upTo])
    refine ⟨fun hquick => ?_, ⟨clock, by rw [hsame]⟩, hhost, ?_, hasks.fresh⟩
    · rcases hslow with ⟨_, hconduct⟩ | hlate
      · simp [Script.delivery?, hconduct]
      · have hover := Script.before_add_lag_le_pause hreaches
        omega
    · refine hcancelled.advance (Nat.le_succ last) (by simp [Task.upTo]) fun wait hmem => ?_
      rw [List.mem_singleton.mp hmem]
      exact ⟨last + 1, rfl, Nat.le_refl _, List.mem_append_right _ (by simp), hready⟩
  | settled loop delivery hhost hdelivery hpatience hserving hasks =>
    rw [hasks.outcome?] at hpending
    cases hpending

end Asked

end Loop

namespace Link

variable {link : Link} {loop : Loop}

theorem conclude_decode (link : Link) (delivery : Delivery) :
    link.conclude delivery.decode = delivery.decode := by
  cases delivery with
  | aborted | failed => rfl
  | reply status body =>
    unfold Delivery.decode
    simp only
    split
    · rfl
    · split <;> rfl

/-- The wait for an asked call ends when its exchange does, or else when the time is up. -/
private theorem waitFor_asked {request : Request} {last patience : Nat} {timeout : Int}
    (hlive : link.live = some loop) (halone : link.detached = [])
    (hpatience : link.env.span timeout = patience)
    (hasked : Loop.Asked link.env request patience last link.env loop) :
    ∃ clock after,
      (link.waitFor timeout fun now => (now.outcome? (last + 1)).isSome) =
        link.running { link.env.exchanged request patience with clock } after ∧
      clock = link.env.clock + link.env.takeScript.1.wait patience ∧ after.host = request.host ∧
      (∀ id, last + 1 < id → after.call? id = none) ∧
      ((∃ delivery, link.env.takeScript.1.inTime? patience = some delivery ∧
          after.outcome? (last + 1) = some delivery.decode ∧ after.Serving (last + 1) [] []) ∨
        link.env.takeScript.1.inTime? patience = none ∧ after.outcome? (last + 1) = none ∧
          (after.post (.cancel (last + 1))).Serving (last + 1) [] []) := by
  let ready (now : Link) : Bool := (now.outcome? (last + 1)).isSome
  obtain ⟨env, after, hreached, hrest, hend⟩ := @drive_running link
    (Loop.Asked link.env request patience last) ready (link.env.clock + patience)
    (fun _ _ _ _ hnow hturn => hnow.turn hturn)
    (fun _ _ _ hnow hrest _ hdue hle => hnow.wake hrest hdue hle) loop hlive halone hasked
  have hwaited : (link.waitFor timeout fun now => (now.outcome? (last + 1)).isSome) =
      link.drive ready (link.env.clock + patience) := by rw [waitFor, hpatience]
  rw [hwaited]
  rcases hend with ⟨hready, hdrive⟩ | ⟨hready, hdue, hdrive⟩
  · obtain ⟨outcome, houtcome⟩ := Option.isSome_iff_exists.mp hready
    have hsettled : after.outcome? (last + 1) = some outcome := houtcome
    obtain ⟨delivery, hdelivery, hquick, rfl, rfl, hhost, hserving, hnew⟩ :=
      hreached.of_outcome hsettled
    have hend : link.env.takeScript.1.inTime? patience = some delivery := by
      rw [Script.inTime?, if_pos hquick, hdelivery]
    refine ⟨_, after, hdrive, ?_, hhost, hnew, .inl ⟨delivery, hend, hsettled, hserving⟩⟩
    rw [Script.wait, hend]
    rfl
  · have hpending : after.outcome? (last + 1) = none := by
      simpa [ready, outcome?, running] using hready
    obtain ⟨hslow, ⟨clock, rfl⟩, hhost, hserving, hnew⟩ := hreached.of_late hrest hpending hdue
    have hend : link.env.takeScript.1.inTime? patience = none := by
      rw [Script.inTime?]
      split
      · next hquick => exact hslow hquick
      · rfl
    refine ⟨_, after, hdrive, ?_, hhost, hnew, .inr ⟨hend, hpending, hserving⟩⟩
    rw [Script.wait, hend]
    rfl

/-- What a call makes of the peer: the end of its exchange if that comes in time, and a timeout
otherwise. The link is left with one more call behind it. -/
theorem call_ask (hlive : link.live = some loop) (halone : link.detached = [])
    (hserving : loop.Serving link.dispatched [] [])
    (hfresh : ∀ id, link.dispatched < id → loop.call? id = none) (timeout : Int)
    (target body : Bytes) :
    ∃ env after, link.call timeout (Operation.ask target body) =
        (link.env.takeScript.1.result (link.env.span timeout) timeout,
          { link with env, live := some after, dispatched := link.dispatched + 1 }) ∧
      env.requests =
        (link.env.exchanged ⟨loop.host, target, body⟩ (link.env.span timeout)).requests ∧
      env.clock = link.env.clock + link.env.takeScript.1.wait (link.env.span timeout) ∧
      after.host = loop.host ∧ after.Serving (link.dispatched + 1) [] [] ∧
      ∀ id, link.dispatched + 1 < id → after.call? id = none := by
  let task : Task := .start (link.dispatched + 1) (Operation.ask target body)
  let started : Link := { link with dispatched := link.dispatched + 1, live := some (loop.post task) }
  have hrunning : started.live = some (loop.post task) := rfl
  have hposted : Loop.Asked started.env ⟨loop.host, target, body⟩ (link.env.span timeout)
      link.dispatched started.env (loop.post task) :=
    .posted _ rfl (hserving.post task rfl) hfresh
  obtain ⟨clock, after, hwaited, hclock, hhost, hnew, hend⟩ :=
    waitFor_asked hrunning halone rfl hposted
  have hconnected : (link.live.map (·.connected)).getD false = true := by
    rw [hlive]
    exact hserving.connected
  have hstarted : ({ link with dispatched := link.dispatched + 1 } : Link).post task = started := by
    simp only [post, hlive, started]
    rfl
  have hscript : started.env.takeScript.1 = link.env.takeScript.1 := rfl
  simp only [call, if_pos hconnected]
  rw [show Task.start (link.dispatched + 1) (Operation.ask target body) = task from rfl, hstarted,
    hwaited]
  rw [hscript] at hend
  rcases hend with ⟨delivery, hintime, houtcome, hafter⟩ | ⟨hlate, hpending, hafter⟩
  · have hsettled : (started.running
        { started.env.exchanged ⟨loop.host, target, body⟩ (link.env.span timeout) with clock }
          after).outcome? (link.dispatched + 1) = some delivery.decode := houtcome
    have hresult : link.env.takeScript.1.result (link.env.span timeout) timeout = delivery.decode := by
      rw [Script.result, hintime]
    rw [hsettled, hresult]
    simp only [conclude_decode]
    exact ⟨_, after, rfl, rfl, hclock, hhost, hafter, hnew⟩
  · have hunsettled : (started.running
        { started.env.exchanged ⟨loop.host, target, body⟩ (link.env.span timeout) with clock }
          after).outcome? (link.dispatched + 1) = none := hpending
    have hresult : link.env.takeScript.1.result (link.env.span timeout) timeout =
        .error (.callTimeout timeout) := by rw [Script.result, hlate]
    rw [hunsettled, hresult]
    exact ⟨_, after.post (.cancel (link.dispatched + 1)), rfl, rfl, hclock, hhost, hafter, hnew⟩

end Link

end Offload
