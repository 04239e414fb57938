import Offload.Proofs.Link.Outcome

namespace Offload

namespace Loop

variable {id : Nat} {env env' : Environment} {loop after : Loop} {service : Service} {began : Nat}
  {exchange : Exchange} {stage : Stage}

theorem stage_cases {script : Script} {due : Nat} (hreaches : script.reaches stage = true)
    (hdue : stageDue (began + script.before stage) stage script = some due) :
    (∃ delivery, stageEnd? stage script = some delivery ∧ script.delivery? = some delivery ∧
        due = began + script.pause) ∨
      stageEnd? stage script = none ∧
        ∃ next, stage.next? = some next ∧ script.reaches next = true ∧
          due = began + script.before next := by
  obtain ⟨hlively, rfl⟩ := stageDue_eq_some.mp hdue
  clear hdue
  obtain ⟨last, conduct⟩ := script
  cases conduct <;> cases last <;> cases stage <;>
    simp_all [stageEnd?, Script.delivery?, Script.reaches, Script.last, Script.answers, Script.pause,
      Script.before, Script.lag, Stage.next?, Nat.add_assoc]

theorem inTime?_of_late {script : Script} {deadline : Nat} (hle : began ≤ deadline)
    (hreaches : script.reaches stage = true)
    (hlate : ∀ due, stageDue (began + script.before stage) stage script = some due → deadline < due) :
    script.inTime? (deadline - began) = none := by
  by_cases hsilent : script.stage = stage ∧ script.conduct = .silence
  · rw [Script.inTime?, Script.delivery?, hsilent.2]
    exact ite_self none
  · have hafter := hlate _ (stageDue_eq_some.mpr ⟨hsilent, rfl⟩)
    have hover := Script.before_add_lag_le_pause hreaches
    rw [Script.inTime?, if_neg]
    omega

/-- The exchange of the call, which began at the given instant, is at a stage. The call waits for nothing
else. -/
structure Exchanging (id began : Nat) (exchange : Exchange) (stage : Stage) (loop : Loop) : Prop where
  reaches : exchange.script.reaches stage = true
  waits : loop.waitsOf id =
    [⟨.call id, stageDue (began + exchange.script.before stage) stage exchange.script,
      .stage stage exchange⟩]

theorem Exchanging.enter (hwaits : loop.waitsOf id = [])
    (hreaches : exchange.script.reaches stage = true)
    (hinstant : env.clock = began + exchange.script.before stage)
    (henter : enter env loop (.call id) stage exchange = (env', after)) :
    after.Exchanging id began exchange stage := by
  have hclock := enter_clock env loop (.call id) stage exchange
  rw [henter] at hclock
  have hsame : env'.clock = env.clock := hclock
  have hafter : after = loop.await (.call id) (stageDue env'.clock stage exchange.script)
      (.stage stage exchange) := by
    rw [Loop.enter, Prod.mk.injEq] at henter
    rw [← henter.1, ← henter.2]
  have hbefore : loop.waits.filter (fun wait => decide (wait.owner = .call id)) = [] := hwaits
  refine ⟨hreaches, ?_⟩
  rw [hafter, hsame, hinstant, waitsOf, Loop.await, List.filter_append, List.filter_cons_of_pos (by simp),
    hbefore]
  rfl

theorem waitsOf_of_takeDue {wait own : Wait} {others : List Wait} {clock : Nat}
    (hwaits : loop.waitsOf id = [own]) (htake : takeDue clock loop.waits = some (wait, others))
    (howner : wait.owner = .call id) :
    wait = own ∧ waitsOf { loop with waits := others } id = [] ∧
      ∃ due, own.due = some due ∧ due ≤ clock := by
  obtain ⟨front, back, hsplit, rfl, hdue⟩ := takeDue_split htake
  rw [waitsOf, hsplit, List.filter_append, List.filter_cons_of_pos (by simpa using howner),
    List.append_eq_singleton_iff] at hwaits
  rcases hwaits with ⟨hfront, htaken⟩ | ⟨_, hnone⟩
  · obtain ⟨rfl, hback⟩ := List.cons.inj htaken
    refine ⟨rfl, ?_, hdue⟩
    rw [waitsOf, List.filter_append, hfront, hback]
    rfl
  · cases hnone

/-- When its stage is over, an exchange ends as the peer has it, or goes on at the next stage. -/
theorem Exchanging.fire (hexchanging : loop.Exchanging id began exchange stage) {wait : Wait}
    {others : List Wait} (htake : takeDue env.clock loop.waits = some (wait, others))
    (howner : wait.owner = .call id)
    (hfire : fire env { loop with waits := others } (.call id) wait.event = (env', after)) :
    stageDue (began + exchange.script.before stage) stage exchange.script = wait.due ∧
      ((∃ delivery, exchange.script.delivery? = some delivery ∧
          wait.due = some (began + exchange.script.pause) ∧
          eventReports { loop with waits := others } id wait.event = [.completed delivery.decode] ∧
          after = Loop.settle { loop with waits := others } id delivery.decode ∧
          after.waitsOf id = []) ∨
        ∃ next, wait.due = some (began + exchange.script.before next) ∧
          eventReports { loop with waits := others } id wait.event = [] ∧
          after.calls = loop.calls ∧
          after.Exchanging id (env.clock - exchange.script.before next) exchange next) := by
  obtain ⟨rfl, hleft, due, hdue, hpast⟩ := waitsOf_of_takeDue hexchanging.waits htake howner
  refine ⟨rfl, ?_⟩
  have hdue : stageDue (began + exchange.script.before stage) stage exchange.script = some due := hdue
  rw [fire_stage_eq] at hfire
  rw [eventReports, hdue]
  rcases stage_cases hexchanging.reaches hdue with ⟨delivery, hend, hdelivery, rfl⟩ |
      ⟨hend, next, hnext, hgoes, rfl⟩
  · rw [hend] at hfire ⊢
    cases hfire
    exact .inl ⟨delivery, hdelivery, rfl, rfl, rfl, hleft⟩
  · rw [hend] at hfire ⊢
    have henter : Loop.enter env { loop with waits := others } (.call id) next exchange =
        (env', after) := by
      cases stage <;> cases hnext <;> exact hfire
    refine .inr ⟨next, rfl, rfl, ?_, .enter hleft hgoes (by omega) henter⟩
    rw [Loop.enter, Prod.mk.injEq] at henter
    rw [← henter.2]
    rfl

/-- When its turn comes, a posted inquiry begins its exchange, as the peer treats the next one. -/
theorem Posted.begin {target body : Bytes} {back : List Task}
    (hposted : loop.Posted id (Operation.ask target body) [] back)
    (halive : loop.alive = true) (hawake : loop.asleep = none)
    (hturn : loop.turn env = some (env', after)) :
    loop.reports env id = [.begun env.takeScript.1] ∧
      after.Exchanging id env.clock ⟨target, body, env.takeScript.1⟩ .connect ∧
      after.call? id = some { handle := { id, action := some [.abort] } } ∧
      after.alive = true ∧ after.asleep = none ∧ after.queue = back := by
  have hqueue : loop.queue = .start id (Operation.ask target body) :: back := hposted.queue
  let begun : Loop := Loop.begun { loop with queue := back } id
  have hfresh : call? { loop with queue := back } id = none := hposted.call
  have hcall : begun.call? id = some { handle := { id, action := some [.abort] } } := by
    rw [begun_call? hfresh, if_pos rfl]
  have hreports : loop.reports env id = [.begun env.takeScript.1] := by
    have hstarted : call? { loop with queue := back, calls := loop.calls ++ [{ handle := { id } }] } id =
        some { handle := { id } } := by
      rw [call?_of_calls_append rfl, show loop.calls.find? _ = none from hfresh, Option.none_or,
        if_pos rfl]
    rw [reports_of_task halive hawake hqueue]
    refine (if_pos rfl).trans ?_
    simp [taskReports, Operation.ask, performReports, onCancelReports, onCancel, hstarted,
      Handle.onCancel, reactReports, react]
  rw [turn_of_task halive hawake hqueue, Option.some.injEq, runTask_ask hfresh, beginExchange_eq] at hturn
  have hwaits : begun.waitsOf id = [] := hposted.waits
  have hexchanging : after.Exchanging id env.clock ⟨target, body, env.takeScript.1⟩ .connect :=
    .enter hwaits rfl env.takeScript_clock hturn
  have hafter : (Loop.enter env.takeScript.2 begun (.call id) .connect
      ⟨target, body, env.takeScript.1⟩).2 = after := congrArg Prod.snd hturn
  refine ⟨hreports, hexchanging, ?_⟩
  rw [← hafter]
  exact ⟨hcall, halive, hawake, rfl⟩

/-- The loop runs, and all that it has to do for other calls is to tell them what was aborted. Of the
given call it has nothing to run. -/
structure Calm (id : Nat) (loop : Loop) : Prop where
  alive : loop.alive = true
  awake : loop.asleep = none
  queue : ∀ task ∈ loop.queue, Notice id task

theorem fire_frame (env : Environment) (loop : Loop) (id : Nat) (event : Event) :
    (fire env loop (.call id) event).2.alive = loop.alive ∧
      (fire env loop (.call id) event).2.asleep = loop.asleep ∧
      (fire env loop (.call id) event).2.queue = loop.queue := by
  cases event with
  | resolved finding => cases finding <;> exact ⟨rfl, rfl, rfl⟩
  | timer completion => exact ⟨rfl, rfl, rfl⟩
  | stage stage exchange =>
    rw [fire_stage_eq]
    cases stageEnd? stage exchange.script with
    | some delivery => exact ⟨rfl, rfl, rfl⟩
    | none => cases stage <;> exact ⟨rfl, rfl, rfl⟩

/-- A calm loop stays calm. In its next turn it takes up something of another call, or an event of the
call itself. -/
theorem Calm.turn (hcalm : loop.Calm id) (hjoined : loop.Joined service)
    (hturn : loop.turn env = some (env', after)) :
    after.Calm id ∧
      (after.waitsOf id = loop.waitsOf id ∧ loop.reports env id = [] ∨
        ∃ wait others, takeDue env.clock loop.waits = some (wait, others) ∧ wait.owner = .call id ∧
          fire env { loop with waits := others } (.call id) wait.event = (env', after) ∧
          loop.reports env id = eventReports { loop with waits := others } id wait.event) := by
  obtain ⟨halive, hawake, hqueue⟩ := hcalm
  by_cases htasks : loop.queue = []
  · rw [turn_of_no_task halive hawake htasks] at hturn
    obtain ⟨⟨wait, others⟩, htake, hfire⟩ := Option.map_eq_some_iff.mp hturn
    obtain ⟨other, howner⟩ := hjoined.waits wait (mem_of_takeDue htake).1
    rw [howner] at hfire
    have hframe := fire_frame env { loop with waits := others } other wait.event
    have hacts := fire_acts env { loop with waits := others } other wait.event
    have hreports := reports_of_event halive hawake htasks htake id
    rw [hfire] at hframe hacts
    obtain ⟨hstays, hwakes, hposts⟩ := hframe
    refine ⟨⟨hstays.trans halive, hwakes.trans hawake, ?_⟩, ?_⟩
    · rw [show after.queue = [] from hposts.trans htasks]
      exact List.forall_mem_nil _
    by_cases hother : id = other
    · subst hother
      rw [if_pos howner] at hreports
      exact .inr ⟨wait, others, htake, howner, hfire, hreports⟩
    · have htakes : Takes env loop other { loop with waits := others } :=
        .event wait others hawake htasks htake howner
      rw [if_neg (by rw [howner]; rintro ⟨⟩; exact hother rfl)] at hreports
      exact .inl ⟨(hacts.waitsOf_of_ne hother).trans (htakes.waitsOf_of_ne hother), hreports⟩
  · obtain ⟨task, rest, htasks⟩ := List.exists_cons_of_ne_nil htasks
    rw [htasks, List.forall_mem_cons] at hqueue
    obtain ⟨⟨other, rfl, hne⟩, hrest⟩ := hqueue
    rw [turn_of_task halive hawake htasks, Option.some.injEq] at hturn
    cases hturn
    refine ⟨⟨halive, hawake, hrest⟩, .inl ⟨rfl, ?_⟩⟩
    rw [reports_of_task halive hawake htasks, if_neg (by simpa [Task.call?] using hne)]

/-- The exchange of the call is at a stage, on a calm loop and not behind time. -/
structure Underway (id began : Nat) (exchange : Exchange) (stage : Stage) (clock : Nat) (loop : Loop) :
    Prop extends Calm id loop, Exchanging id began exchange stage loop where
  early : ∀ due, stageDue (began + exchange.script.before stage) stage exchange.script = some due →
    clock ≤ due

theorem Underway.of_entered {clock : Nat} (hcalm : loop.Calm id)
    (hexchanging : loop.Exchanging id began exchange stage)
    (hinstant : clock = began + exchange.script.before stage) :
    loop.Underway id began exchange stage clock := by
  refine ⟨hcalm, hexchanging, fun due hdue => ?_⟩
  rw [(stageDue_eq_some.mp hdue).2, hinstant]
  exact Nat.le_add_right _ _

/-- In a turn of the loop an exchange goes on, or ends as the peer has it, just when that is due. -/
theorem Underway.turn (hunderway : loop.Underway id began exchange stage env.clock)
    (hjoined : loop.Joined service) (hturn : loop.turn env = some (env', after)) :
    (loop.reports env id = [] ∧ ∃ next, after.Underway id began exchange next env.clock) ∨
      ∃ delivery, exchange.script.delivery? = some delivery ∧
        env.clock = began + exchange.script.pause ∧
        loop.reports env id = [.completed delivery.decode] ∧ after.Calm id ∧
        after.waitsOf id = [] := by
  obtain ⟨hcalm, ⟨hwaits, hreports⟩ | ⟨wait, others, htake, howner, hfire, hreports⟩⟩ :=
    hunderway.toCalm.turn hjoined hturn
  · exact .inl ⟨hreports, stage, hcalm, ⟨hunderway.reaches, hwaits.trans hunderway.waits⟩,
      hunderway.early⟩
  · obtain ⟨hstage, hgoes⟩ := hunderway.toExchanging.fire htake howner hfire
    have hnow : ∀ due, wait.due = some due → env.clock = due := by
      intro due hdue
      obtain ⟨_, _, _, _, past, hpast, hle⟩ := takeDue_split htake
      cases hdue.symm.trans hpast
      exact Nat.le_antisymm (hunderway.early due (hstage.trans hdue)) hle
    rcases hgoes with ⟨delivery, hdelivery, hdue, hended, _, hleft⟩ | ⟨next, hdue, hended, _, hnext⟩
    · exact .inr ⟨delivery, hdelivery, hnow _ hdue, hreports.trans hended, hcalm, hleft⟩
    · have hinstant := hnow _ hdue
      rw [hinstant, Nat.add_sub_cancel] at hnext
      exact .inl ⟨hreports.trans hended, next, .of_entered hcalm hnext hinstant⟩

theorem Underway.nextDue_le {clock due : Nat}
    (hunderway : loop.Underway id began exchange stage clock)
    (hdue : stageDue (began + exchange.script.before stage) stage exchange.script = some due) :
    ∃ first, loop.nextDue = some first ∧ first ≤ due := by
  have hown : (⟨.call id, stageDue (began + exchange.script.before stage) stage exchange.script,
      .stage stage exchange⟩ : Wait) ∈ loop.waitsOf id := by
    rw [hunderway.waits]
    exact List.mem_singleton_self _
  simp only [nextDue, hunderway.alive, hunderway.awake, if_true]
  exact foldl_earlier_le Wait.due (List.mem_filter.mp hown).1 hdue

/-- What is reported up to the deadline of an exchange that has begun: its end, if the peer ends it in
time. -/
def ending (script : Script) (began deadline : Nat) : List (Nat × Report) :=
  (script.inTime? (deadline - began)).toList.map fun delivery =>
    (began + script.pause, .completed delivery.decode)

/-- What an inquiry reports from the given instant on: nothing once its exchange is over, the end of an
exchange that is underway, and if it still waits for its turn, nothing or the whole of its exchange. -/
structure Tells (id deadline clock : Nat) (loop : Loop) (told : List (Nat × Report)) : Prop where
  ended : loop.Calm id → loop.waitsOf id = [] → told = []
  underway : ∀ began exchange stage, loop.Underway id began exchange stage clock →
    began ≤ deadline → told = ending exchange.script began deadline
  posted : ∀ target body front back, loop.Posted id (Operation.ask target body) front back →
    (∀ task ∈ back, Notice id task) →
    told = [] ∨ ∃ began script, clock ≤ began ∧ began ≤ deadline ∧
      told = (began, .begun script) :: ending script began deadline

variable {deadline clock : Nat} {told : List (Nat × Report)}

theorem Tells.turn (hrest : after.Tells id deadline env.clock told) (hnow : env.clock ≤ deadline)
    (hjoined : loop.Joined service) (hturn : loop.turn env = some (env', after)) :
    loop.Tells id deadline env.clock
      ((loop.reports env id).map (fun report => (env.clock, report)) ++ told) := by
  refine ⟨fun hcalm hwaits => ?_, fun began exchange stage hunderway hbegan => ?_,
    fun target body front back hposted hnotices => ?_⟩
  · obtain ⟨hcalm, ⟨hsame, hreports⟩ | ⟨wait, others, htake, howner, _⟩⟩ := hcalm.turn hjoined hturn
    · rw [hreports, hrest.ended hcalm (hsame.trans hwaits)]
      rfl
    · exact (waitsOf_eq_nil_iff.mp hwaits wait (mem_of_takeDue htake).1 howner).elim
  · rcases hunderway.turn hjoined hturn with ⟨hreports, next, hafter⟩ |
        ⟨delivery, hdelivery, hinstant, hreports, hcalm, hwaits⟩
    · rw [hreports, hrest.underway began exchange next hafter hbegan]
      rfl
    · have hintime : exchange.script.inTime? (deadline - began) = some delivery := by
        rw [Script.inTime?, if_pos (by omega), hdelivery]
      rw [hreports, hrest.ended hcalm hwaits, ending, hintime, hinstant]
      rfl
  · rcases hposted.turn hjoined hturn with ⟨rfl, halive, hawake⟩ |
        ⟨hreports, left, notices, hafter, hnew⟩
    · obtain ⟨hreports, hexchanging, _, halive, hawake, hqueue⟩ := hposted.begin halive hawake hturn
      have hunderway := Underway.of_entered ⟨halive, hawake, hqueue ▸ hnotices⟩ hexchanging rfl
      refine .inr ⟨env.clock, env.takeScript.1, Nat.le_refl _, hnow, ?_⟩
      rw [hreports, hrest.underway _ _ _ hunderway hnow]
      rfl
    · rw [hreports]
      exact hrest.posted target body left _ hafter (List.forall_mem_append.mpr ⟨hnotices, hnew⟩)

theorem Tells.wake {due : Nat} (hrest : loop.Tells id deadline due told) (hpasses : clock ≤ due)
    (hfirst : ∀ instant, loop.nextDue = some instant → due ≤ instant) :
    loop.Tells id deadline clock told := by
  refine ⟨hrest.ended, fun began exchange stage hunderway => ?_,
    fun target body front back hposted hnotices => ?_⟩
  · refine hrest.underway began exchange stage
      ⟨hunderway.toCalm, hunderway.toExchanging, fun instant hinstant => ?_⟩
    obtain ⟨first, hnext, hle⟩ := hunderway.nextDue_le hinstant
    exact Nat.le_trans (hfirst first hnext) hle
  · refine (hrest.posted target body front back hposted hnotices).imp_right fun h => ?_
    obtain ⟨began, script, hlater, hbegan, htold⟩ := h
    exact ⟨began, script, Nat.le_trans hpasses hlater, hbegan, htold⟩

theorem Tells.late (hlate : ∀ instant, loop.nextDue = some instant → deadline < instant) :
    loop.Tells id deadline clock [] := by
  refine ⟨fun _ _ => rfl, fun began exchange stage hunderway hbegan => ?_, fun _ _ _ _ _ _ => .inl rfl⟩
  have hnever : exchange.script.inTime? (deadline - began) = none := by
    refine inTime?_of_late hbegan hunderway.reaches fun due hdue => ?_
    obtain ⟨first, hnext, hle⟩ := hunderway.nextDue_le hdue
    exact Nat.lt_of_lt_of_le (hlate first hnext) hle
  rw [ending, hnever]
  rfl

end Loop

namespace Link

open Loop

variable {id deadline : Nat} {link : Link} {loop : Loop} {service : Service}

theorem tells_of_late {clock : Nat} (hlive : link.live = some loop)
    (hlate : ∀ due, link.nextDue = some due → deadline < due) : loop.Tells id deadline clock [] := by
  refine .late fun due hdue => ?_
  have hmem : loop ∈ link.loops := List.mem_append_left _ (by simp [hlive])
  obtain ⟨first, hfirst, hle⟩ := foldl_earlier_le Loop.nextDue hmem hdue
  exact Nat.lt_of_lt_of_le (hlate first hfirst) hle

/-- What an inquiry reports is settled by its own loop. The loops that were left behind, which have
their turns while it is at rest, have no part in it. -/
theorem reportsUntil_tells (hlive : link.live = some loop) (hjoined : loop.Joined service)
    (hnow : link.env.clock ≤ deadline) :
    loop.Tells id deadline link.env.clock (link.reportsUntil id deadline) := by
  induction link using reportsUntil.induct deadline generalizing loop with
  | case1 link next hstep ih =>
    have hreports := reports_of_live hlive id
    have hsame := turn_clock hstep
    rw [reportsUntil_of_turn hstep, hreports]
    rw [hsame] at ih
    rcases turn_cases hlive hstep with ⟨env, after, hturn, rfl⟩ | ⟨hrest, env, detached, rfl⟩
    · exact (ih rfl (hjoined.turn hturn) hnow).turn hnow hjoined hturn
    · rw [reports_of_rest hrest]
      exact ih hlive hjoined hnow
  | case2 link hrest due hdue hle ih =>
    have hmem : loop ∈ link.loops := List.mem_append_left _ (by simp [hlive])
    rw [reportsUntil_of_wake hrest hdue hle]
    exact (ih hlive hjoined hle).wake (Nat.le_of_lt (clock_lt_nextDue hrest hdue))
      ((foldl_earlier_eq_some Loop.nextDue hdue).2.2 loop hmem)
  | case3 link hrest due hdue hlater =>
    have hlate : ∀ instant, link.nextDue = some instant → deadline < instant := by
      intro instant hinstant
      cases hdue.symm.trans hinstant
      exact Nat.lt_of_not_le hlater
    rw [reportsUntil_of_late hrest hlate]
    exact tells_of_late hlive hlate
  | case4 link hrest hdue =>
    have hlate : ∀ instant, link.nextDue = some instant → deadline < instant := by simp [hdue]
    rw [reportsUntil_of_late hrest hlate]
    exact tells_of_late hlive hlate

theorem Numbered.inquiry_reports (hnumbered : link.Numbered) (hlive : link.live = some loop)
    (target body : Bytes) (hnow : link.env.clock ≤ deadline) :
    let told := (link.handing (Operation.ask target body)).reportsUntil (link.dispatched + 1) deadline
    told = [] ∨ ∃ began script, link.env.clock ≤ began ∧ began ≤ deadline ∧
      told = (began, .begun script) :: ending script began deadline := by
  obtain ⟨⟨service, hjoined⟩, hposted⟩ := hnumbered.started hlive (Operation.ask target body)
  have hhanded : (link.handing (Operation.ask target body)).live =
      some (loop.post (.start (link.dispatched + 1) (Operation.ask target body))) := by
    rw [Link.handing, Link.post, hlive]
    rfl
  exact (reportsUntil_tells hhanded hjoined hnow).posted target body _ _ hposted
    (List.forall_mem_nil _)

end Link

end Offload
