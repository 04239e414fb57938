import Offload.Proofs.Link.Alike
import Offload.Proofs.Link.Connection
import Offload.Proofs.Link.Inquiry
import Offload.Proofs.Link.Passage

namespace Offload

namespace Environment

/-- How an attempt to connect ends, and at which instant, whose host has been looked up by then. -/
def greetedFrom? (host : Bytes) (instant : Nat) :
    Except Bytes Script → Option (Nat × Except Failure Service)
  | .ok script => script.delivery?.map fun delivery =>
      (instant + script.pause, delivery.decode >>= Service.ofReply)
  | .error reason => some (instant, .error (.unresolved host reason))

/-- How an attempt to connect that begins in these surroundings ends, and at which instant, if it is
waited for. -/
def greeted? (env : Environment) (host : Bytes) : Option (Nat × Except Failure Service) :=
  env.lookUp.1.bind fun instant => greetedFrom? host instant env.lookUp.2.1

def spent (env : Environment) : Environment := env.lookUp.2.2

end Environment

namespace Loop

variable {greeted : Option (Nat × Except Failure Service)} {host : Bytes} {loop after : Loop}
  {env env' : Environment}

open Environment (greetedFrom?)

/-- An attempt to connect of which nothing is posted any more, on its way to the given end: its host is
being looked up, its handshake is at a stage, or it is over. -/
inductive Greets (host : Bytes) (greeted : Option (Nat × Except Failure Service)) (clock : Nat)
    (loop : Loop) : Prop
  | resolving (due : Option Nat) (finding : Except Bytes Script)
    (hwaits : loop.waits = [⟨.attempt, due, .resolved finding⟩]) (hverdict : loop.verdict = none)
    (hearly : ∀ instant, due = some instant → clock ≤ instant)
    (hgreeted : greeted = due.bind fun instant => greetedFrom? host instant finding)
  | shaking (began : Nat) (stage : Stage) (exchange : Exchange)
    (hreaches : exchange.script.reaches stage = true)
    (hwaits : loop.waits = [⟨.attempt,
      stageDue (began + exchange.script.before stage) stage exchange.script, .stage stage exchange⟩])
    (hverdict : loop.verdict = none)
    (hearly : ∀ due, stageDue (began + exchange.script.before stage) stage exchange.script = some due →
      clock ≤ due)
    (hgreeted : greeted = greetedFrom? host began (.ok exchange.script))
  | ended (instant : Nat) (result : Except Failure Service) (hwaits : loop.waits = [])
    (hpast : instant ≤ clock) (hgreeted : greeted = some (instant, result))
    (hverdict : loop.verdict = some (result.map fun _ => ()))
    (hservice : ∀ service, result = .ok service →
      loop.connected = true ∧ loop.service = some service)

theorem Greets.settled {instant clock : Nat} (hwaits : loop.waits = []) (hpast : instant ≤ clock)
    (result : Except Failure Service) :
    (loop.settleAttempt result).Greets host (some (instant, result)) clock := by
  cases result with
  | ok service => exact .ended instant _ hwaits hpast rfl rfl fun other hother => by cases hother; exact ⟨rfl, rfl⟩
  | error failure => exact .ended instant _ hwaits hpast rfl rfl fun other hother => by cases hother

theorem enter_alike_self (env : Environment) (loop : Loop) (owner : Owner) (stage : Stage)
    (exchange : Exchange) : (enter env loop owner stage exchange).1.Alike env := by
  unfold enter
  split
  · exact env.send_alike _
  · exact .refl env

theorem Greets.entered {began : Nat} {stage : Stage} {exchange : Exchange} (hwaits : loop.waits = [])
    (hverdict : loop.verdict = none) (hqueue : loop.queue = [])
    (hreaches : exchange.script.reaches stage = true)
    (hclock : env.clock = began + exchange.script.before stage)
    (hgreeted : greeted = greetedFrom? host began (.ok exchange.script))
    (henter : enter env loop .attempt stage exchange = (env', after)) :
    after.Greets host greeted env'.clock ∧ after.queue = [] ∧ env'.Alike env := by
  have halike := enter_alike_self env loop .attempt stage exchange
  rw [henter] at halike
  have hnow : env'.clock = began + exchange.script.before stage := halike.clock.trans hclock
  have hafter : after = loop.await .attempt (stageDue env'.clock stage exchange.script)
      (.stage stage exchange) := by
    rw [enter, Prod.mk.injEq] at henter
    rw [← henter.2, ← henter.1]
  refine ⟨.shaking began stage exchange hreaches ?_ ?_ (fun due hdue => ?_) hgreeted, ?_, halike⟩
  · rw [hafter, hnow, await, hwaits]
    rfl
  · rw [hafter]
    exact hverdict
  · rw [(stageDue_eq_some.mp hdue).2, hnow]
    exact Nat.le_add_right _ _
  · rw [hafter]
    exact hqueue

/-- Whatever the loop does next, the attempt stays on its way, and what it does is only logged and
sent. -/
theorem Greets.turn (hgreets : loop.Greets host greeted env.clock) (hunused : loop.Unused host)
    (hqueue : loop.queue = []) (hturn : loop.turn env = some (env', after)) :
    after.Greets host greeted env'.clock ∧ after.queue = [] ∧ env'.Alike env := by
  have ⟨halive, hawake, _, hhost⟩ := hunused
  rw [turn_of_no_task halive hawake hqueue] at hturn
  obtain ⟨⟨wait, others⟩, htake, hfire⟩ := Option.map_eq_some_iff.mp hturn
  have hcleared : waits { loop with waits := [] } = [] := rfl
  cases hgreets with
  | resolving due finding hwaits hverdict hearly hgreeted =>
    rw [hwaits] at htake
    obtain ⟨rfl, rfl, instant, rfl, hle⟩ := takeDue_singleton htake
    have hnow : env.clock = instant := Nat.le_antisymm (hearly instant rfl) hle
    cases finding with
    | ok script =>
      exact @Greets.entered greeted host { loop with waits := [] } after env env' instant .connect
        ⟨_, _, script⟩ hcleared hverdict hqueue rfl hnow hgreeted hfire
    | error reason =>
      obtain ⟨rfl, rfl⟩ := Prod.mk.inj hfire
      rw [hgreeted, ← hhost]
      exact ⟨.settled hcleared hle _, hqueue, .refl env⟩
  | shaking began stage exchange hreaches hwaits hverdict hearly hgreeted =>
    rw [hwaits] at htake
    obtain ⟨rfl, rfl, due, hdue, hle⟩ := takeDue_singleton htake
    have hnow : env.clock = due := Nat.le_antisymm (hearly due hdue) hle
    obtain ⟨hlively, hends⟩ := stageDue_eq_some.mp hdue
    rcases fire_stage hreaches hlively env { loop with waits := [] } .attempt with
      ⟨delivery, hdelivery, hlast, hdeliver⟩ | ⟨next, _, hgoes, hbefore, henter⟩
    · obtain ⟨rfl, rfl⟩ := Prod.mk.inj (hdeliver.symm.trans hfire)
      have hpast : began + exchange.script.pause ≤ env.clock := by
        rw [Script.pause, hlast]
        omega
      refine ⟨?_, (deliver_attempt_frame _ _).1.trans hqueue, .refl env⟩
      rw [hgreeted, greetedFrom?, hdelivery]
      exact .settled hcleared hpast _
    · exact Greets.entered hcleared hverdict hqueue hgoes (by omega) hgreeted (henter.symm.trans hfire)
  | ended instant result hwaits =>
    rw [hwaits] at htake
    cases htake

theorem Greets.wait {clock later : Nat} (hgreets : loop.Greets host greeted clock)
    (hunused : loop.Unused host) (hforward : clock ≤ later)
    (hfirst : ∀ due, loop.nextDue = some due → later ≤ due) : loop.Greets host greeted later := by
  cases hgreets with
  | resolving due finding hwaits hverdict _ hgreeted =>
    refine .resolving due finding hwaits hverdict (fun instant hinstant => hfirst instant ?_) hgreeted
    simp only [nextDue, hunused.1, hunused.2.1, hwaits, soonest_singleton, hinstant, if_true]
  | shaking began stage exchange hreaches hwaits hverdict _ hgreeted =>
    refine .shaking began stage exchange hreaches hwaits hverdict (fun due hdue => hfirst due ?_) hgreeted
    simp only [nextDue, hunused.1, hunused.2.1, hwaits, soonest_singleton, hdue, if_true]
  | ended instant result hwaits hpast hgreeted hverdict hservice =>
    exact .ended instant result hwaits (Nat.le_trans hpast hforward) hgreeted hverdict hservice

/-- An attempt that has no verdict when it cannot be waited for any longer does not end in time. -/
theorem Greets.of_late {clock deadline : Nat} (hgreets : loop.Greets host greeted clock)
    (hunused : loop.Unused host) (hopen : loop.verdict = none)
    (hlate : ∀ due, loop.nextDue = some due → deadline < due) :
    ∀ instant result, greeted = some (instant, result) → deadline < instant := by
  intro instant result hresult
  cases hgreets with
  | resolving due finding hwaits _ _ hgreeted =>
    rw [hgreeted] at hresult
    obtain ⟨found, rfl, hended⟩ := Option.bind_eq_some_iff.mp hresult
    have hnext : loop.nextDue = some found := by
      simp only [nextDue, hunused.1, hunused.2.1, hwaits, soonest_singleton, if_true]
    have hpast := hlate found hnext
    cases finding with
    | ok script =>
      obtain ⟨delivery, _, hpair⟩ := Option.map_eq_some_iff.mp hended
      obtain ⟨rfl, _⟩ := Prod.mk.inj hpair
      omega
    | error reason =>
      cases hended
      exact hpast
  | shaking began stage exchange hreaches hwaits _ _ hgreeted =>
    rw [hgreeted] at hresult
    obtain ⟨delivery, hdelivery, hpair⟩ := Option.map_eq_some_iff.mp hresult
    obtain ⟨rfl, _⟩ := Prod.mk.inj hpair
    have hnext : loop.nextDue =
        stageDue (began + exchange.script.before stage) stage exchange.script := by
      simp only [nextDue, hunused.1, hunused.2.1, hwaits, soonest_singleton, if_true]
    have hlively : ¬(exchange.script.stage = stage ∧ exchange.script.conduct = .silence) := by
      rintro ⟨_, hsilent⟩
      simp [Script.delivery?, hsilent] at hdelivery
    have hdue := hlate _ (hnext.trans (stageDue_eq_some.mpr ⟨hlively, rfl⟩))
    have hover := Script.before_add_lag_le_pause hreaches
    omega
  | ended _ _ _ _ _ hverdict =>
    rw [hopen] at hverdict
    cases hverdict

/-- Turns that a loop takes one after the other. -/
abbrev Runs : Environment × Loop → Environment × Loop → Prop :=
  Relation.ReflTransGen fun now next => now.2.turn now.1 = some next

theorem Yielding.runs_stop (owners : List Owner) (hyielding : loop.Yielding)
    (halive : loop.alive = true) (hqueue : loop.queue = owners.map Task.aborted ++ [.stop])
    (env : Environment) : ∃ after, Runs (env, loop) (env, after) ∧ after.alive = false := by
  induction owners generalizing loop with
  | nil => exact ⟨_, .single (turn_of_task halive hyielding.awake hqueue env), rfl⟩
  | cons owner rest ih =>
    let freed : Loop := { loop with queue := rest.map Task.aborted ++ [.stop] }
    have hfreed : freed.Yielding :=
      ⟨hyielding.awake, hyielding.mild.of_calls rfl, hyielding.attempt⟩
    obtain ⟨hstays, hleft⟩ := deliver_aborted_frame freed owner
    obtain ⟨after, hruns, hended⟩ := ih (hfreed.deliver_aborted owner) (hstays.trans halive) hleft
    exact ⟨after, .head (turn_of_task halive hyielding.awake hqueue env) hruns, hended⟩

/-- A loop that gives way, and of which nothing is posted any more, stops at once when it is asked to, and
nothing else comes of it. -/
theorem Yielding.runs_out (hyielding : loop.Yielding) (halive : loop.alive = true)
    (hqueue : loop.queue = []) (env : Environment) :
    ∃ after, Runs (env, loop.askToStop) (env, after) ∧ after.alive = false := by
  have hasked : loop.askToStop.queue = [.shutdown] := by
    rw [Loop.askToStop, post, hangUp, hqueue]
    rfl
  have hrunning : loop.askToStop.alive = true := halive
  have hfreed : (hangUp { loop.askToStop with queue := [] }).Yielding :=
    ⟨hyielding.awake, hyielding.mild.of_calls rfl, hyielding.attempt⟩
  obtain ⟨cancelled, hcancel, hafter, hnoticed⟩ :=
    hfreed.cancelAll env (pending { loop.askToStop with queue := [] })
  obtain ⟨owners, hnotices⟩ := hnoticed.queue
  have hfirst : loop.askToStop.turn env = some (env, cancelled.post .stop) := by
    rw [turn_of_task hrunning hyielding.awake hasked, runTask, hcancel]
  have hstopping : (cancelled.post .stop).Yielding :=
    ⟨hafter.awake, hafter.mild.of_calls rfl, hafter.attempt⟩
  obtain ⟨after, hruns, hended⟩ := hstopping.runs_stop owners (hnoticed.alive.trans halive)
    (by rw [post, hnotices]; rfl) env
  exact ⟨after, .head hfirst hruns, hended⟩

end Loop

namespace Link

variable {greeted : Option (Nat × Except Failure Service)} {host : Bytes} {link opened start now next : Link}
  {loop : Loop}

theorem drive_of_runs {ready : Link → Bool} {deadline : Nat} {env env' : Environment} {after : Loop}
    (hruns : Loop.Runs (env, loop) (env', after)) :
    (link.running env loop).drive ready deadline = (link.running env' after).drive ready deadline := by
  generalize hfirst : (env, loop) = first at hruns
  generalize hlast : (env', after) = last at hruns
  induction hruns using Relation.ReflTransGen.head_induction_on generalizing env loop with
  | refl =>
    cases hfirst.trans hlast.symm
    rfl
  | @head first second hturn _ ih =>
    cases hfirst
    rw [drive_of_turn (turn_of_live rfl hturn)]
    exact ih rfl

/-- While the live loop rests, the loops that were left behind have the next turn. -/
theorem turn_of_idle (hidle : link.live.bind (·.turn link.env) = none) :
    link.turn = (turnAny link.env link.detached).map fun found =>
      { link with env := found.1, detached := found.2 } := by
  unfold turn
  rw [hidle]

theorem loops_of_apart (hlive : link.live = none) : link.loops = link.detached := by
  rw [loops, hlive]
  rfl

theorem turn_eq_none_of_apart (hlive : link.live = none)
    (hidle : ∀ other ∈ link.detached, other.turn link.env = none) : link.turn = none := by
  rw [turn_eq_none, loops_of_apart hlive]
  exact hidle

/-- A link on which an attempt to connect is made that is to end as given. All else has come about as if
by letting the time pass from the given start. -/
inductive Attempting (opened start : Link) (host : Bytes)
    (greeted : Option (Nat × Except Failure Service)) : Link → Prop
  | intro (env quiet : Environment) (loop : Loop) (detached : List Loop)
    (hgreeting : loop.Greeting host) (hqueue : loop.queue = [])
    (hgreets : loop.Greets host greeted env.clock)
    (hpasses : Passes start { start with env := quiet, detached }) (halike : env.Alike quiet) :
    Attempting opened start host greeted { opened with env, live := some loop, detached }

theorem Attempting.turn (hnow : Attempting opened start host greeted now) (happart : start.live = none)
    (hturn : now.turn = some next) : Attempting opened start host greeted next := by
  obtain ⟨env, quiet, loop, detached, hgreeting, hqueue, hgreets, hpasses, halike⟩ := hnow
  cases hstep : loop.turn env with
  | some found =>
    obtain ⟨env', after⟩ := found
    obtain ⟨hafter, hempty, hsame⟩ := hgreets.turn hgreeting.unused hqueue hstep
    have hnext : ({ opened with env, live := some loop, detached } : Link).turn = _ :=
      turn_of_live rfl hstep
    cases hnext.symm.trans hturn
    exact .intro env' quiet after detached (hgreeting.turn hstep) hempty hafter hpasses
      (hsame.trans halike)
  | none =>
    rw [turn_of_idle (by simpa using hstep)] at hturn
    obtain ⟨⟨env', detached'⟩, hany, rfl⟩ := Option.map_eq_some_iff.mp hturn
    have hany : turnAny env detached = some (env', detached') := hany
    have hquiet := turnAny_alike halike detached
    rw [hany] at hquiet
    generalize hfound : turnAny quiet detached = found at hquiet
    cases hquiet with
    | @some _ found hagree =>
      obtain ⟨quiet', _⟩ := found
      obtain ⟨hafter, hsame⟩ := hagree
      cases hsame
      have hnext : ({ start with env := quiet, detached } : Link).turn =
          some { start with env := quiet', detached := detached' } := by
        rw [turn_of_idle (by rw [happart]; rfl), hfound]
        rfl
      refine .intro env' quiet' loop detached' hgreeting hqueue ?_ (hpasses.turn hnext) hafter
      rw [turnAny_clock hany]
      exact hgreets

theorem Attempting.wait {clock : Nat} (hnow : Attempting opened start host greeted now)
    (happart : start.live = none) (hrest : now.turn = none) (hforward : now.env.clock ≤ clock)
    (hearly : ∀ due, now.nextDue = some due → clock ≤ due) :
    Attempting opened start host greeted (now.setClock clock) := by
  obtain ⟨env, quiet, loop, detached, hgreeting, hqueue, hgreets, hpasses, halike⟩ := hnow
  have hidle := turn_eq_none.mp hrest
  have hfirst : ∀ other ∈ loop :: detached, ∀ due, other.nextDue = some due → clock ≤ due := by
    intro other hmem due hdue
    obtain ⟨first, hnext, hle⟩ := foldl_earlier_le Loop.nextDue hmem hdue
    exact Nat.le_trans (hearly first hnext) hle
  have hquiet : ({ start with env := quiet, detached } : Link).turn = none :=
    @turn_eq_none_of_apart { start with env := quiet, detached } happart fun other hmem =>
      Loop.turn_eq_none_of_alike halike (hidle other (List.mem_cons_of_mem _ hmem))
  have hpassed := hpasses.wait hquiet (halike.clock ▸ hforward) (fun due hdue => by
    rw [nextDue, @loops_of_apart { start with env := quiet, detached } happart] at hdue
    rcases (foldl_earlier_eq_some Loop.nextDue hdue).1 with hnone | ⟨other, hmem, hother⟩
    · cases hnone
    · exact hfirst other (List.mem_cons_of_mem _ hmem) due hother)
  exact .intro { env with clock } { quiet with clock } loop detached hgreeting hqueue
    (hgreets.wait hgreeting.unused hforward (hfirst loop List.mem_cons_self)) hpassed
    (halike.setClock clock)

end Link

end Offload
