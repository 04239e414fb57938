import Offload.Proofs.Link.Calls
import Offload.Proofs.Link.Drive

namespace Offload

namespace Loop

variable {loop after : Loop} {env env' : Environment}

/-- Nothing on the loop outlasts its cancellation. -/
structure Yielding (loop : Loop) : Prop where
  awake : loop.asleep = none
  mild : loop.Mild
  attempt : ∀ handle, loop.attempt = some handle →
    handle.action = none ∨ handle.action = some [.abort]

/-- A loop differs from another by notices of what was aborted. -/
structure Noticed (before after : Loop) : Prop where
  alive : after.alive = before.alive
  queue : ∃ owners : List Owner, after.queue = before.queue ++ owners.map Task.aborted

theorem Noticed.trans {middle : Loop} (hfirst : Noticed loop middle) (hsecond : Noticed middle after) :
    Noticed loop after := by
  obtain ⟨first, hqueue⟩ := hfirst.queue
  obtain ⟨second, hqueue'⟩ := hsecond.queue
  refine ⟨hsecond.alive.trans hfirst.alive, first ++ second, ?_⟩
  rw [hqueue', hqueue, List.map_append, List.append_assoc]

theorem Yielding.cancelled (hyielding : loop.Yielding) (id : Nat) :
    (loop.cancelled id).Yielding ∧ Noticed loop (loop.cancelled id) := by
  obtain ⟨halive, hasleep, _, hattempt, _⟩ := cancelled_frame loop id
  obtain ⟨ended, hqueue⟩ := cancelled_queue loop id
  refine ⟨⟨?_, hyielding.mild.cancelled id, ?_⟩, halive, ended.map fun _ => .call id, ?_⟩
  · rw [hasleep]
    exact hyielding.awake
  · rw [hattempt]
    exact hyielding.attempt
  · rw [hqueue, List.map_map]
    rfl

theorem Yielding.cancelAttempt (hyielding : loop.Yielding) (env : Environment) :
    ∃ after, cancelAttempt env loop = (env, after, none) ∧ after.Yielding ∧ Noticed loop after := by
  unfold Loop.cancelAttempt
  cases hattempt : loop.attempt with
  | none => exact ⟨loop, rfl, hyielding, rfl, [], by simp⟩
  | some handle =>
    have hgentle := hyielding.attempt handle hattempt
    have hstays : ∀ other, some handle.cancel.1 = some other →
        other.action = none ∨ other.action = some [.abort] := by
      intro other hother
      cases hother
      exact cancel_action hgentle
    rcases cancel_due hgentle with hdue | hdue
    · refine ⟨{ loop with attempt := some handle.cancel.1 }, ?_, ⟨?_, ?_, hstays⟩, rfl, [], ?_⟩
      · simp [hdue, react]
      · exact hyielding.awake
      · exact hyielding.mild.of_calls rfl
      · simp
    · refine ⟨{ loop with attempt := some handle.cancel.1 }.abort .attempt, ?_, ⟨?_, ?_, hstays⟩, rfl,
        (loop.waits.filter (·.owner = .attempt)).map fun _ => .attempt, ?_⟩
      · simp [hdue, react]
      · exact hyielding.awake
      · exact hyielding.mild.of_calls rfl
      · rw [List.map_map]
        rfl

theorem Yielding.cancelAll (hyielding : loop.Yielding) (env : Environment) (calls : List Call) :
    ∃ after, cancelAll env loop calls = (env, after, none) ∧ after.Yielding ∧ Noticed loop after := by
  induction calls generalizing loop with
  | nil => exact hyielding.cancelAttempt env
  | cons call rest ih =>
    obtain ⟨hnext, hnoticed⟩ := hyielding.cancelled call.handle.id
    obtain ⟨after, hrest, hafter, hmore⟩ := ih hnext
    refine ⟨after, ?_, hafter, hnoticed.trans hmore⟩
    rw [Loop.cancelAll, cancelCall_of_mild hyielding.mild]
    exact hrest

theorem Yielding.deliver_aborted (hyielding : loop.Yielding) (owner : Owner) :
    (loop.deliver owner .aborted).Yielding := by
  cases owner with
  | attempt =>
    refine ⟨hyielding.awake, hyielding.mild.of_calls rfl, ?_⟩
    intro handle hhandle
    cases hhandle
  | call id => exact ⟨hyielding.awake, hyielding.mild.settle id _, hyielding.attempt⟩

theorem deliver_aborted_frame (loop : Loop) (owner : Owner) :
    (loop.deliver owner .aborted).alive = loop.alive ∧
      (loop.deliver owner .aborted).queue = loop.queue := by
  cases owner <;> exact ⟨rfl, rfl⟩

/-- A loop on its way to the end. -/
structure Leaving (loop : Loop) : Prop extends Yielding loop where
  noStart : ∀ id operation, Task.start id operation ∉ loop.queue
  posted : loop.alive = true → .shutdown ∈ loop.queue ∨ .stop ∈ loop.queue

theorem Yielding.askToStop (hyielding : loop.Yielding)
    (hnoStart : ∀ id operation, Task.start id operation ∉ loop.queue) : loop.askToStop.Leaving where
  awake := hyielding.awake
  mild := hyielding.mild.of_calls rfl
  attempt := hyielding.attempt
  noStart := by
    intro id operation hmem
    rcases List.mem_append.mp hmem with h | h
    · exact hnoStart id operation h
    · simp at h
  posted := fun _ => .inl (List.mem_append_right _ (by simp))

theorem Leaving.of_noticed (hyielding : after.Yielding) (hnoticed : Noticed loop after)
    (hnoStart : ∀ id operation, Task.start id operation ∉ loop.queue)
    (hposted : loop.alive = true → .shutdown ∈ loop.queue ∨ .stop ∈ loop.queue) :
    after.Leaving := by
  obtain ⟨owners, hqueue⟩ := hnoticed.queue
  refine ⟨hyielding, ?_, ?_⟩
  · intro id operation hmem
    rw [hqueue] at hmem
    rcases List.mem_append.mp hmem with h | h
    · exact hnoStart id operation h
    · simp at h
  · intro halive
    rw [hqueue]
    rcases hposted (hnoticed.alive ▸ halive) with h | h
    · exact .inl (List.mem_append_left _ h)
    · exact .inr (List.mem_append_left _ h)

theorem Yielding.beginConnect (hyielding : loop.Yielding) (env : Environment) :
    (beginConnect env loop).2.Yielding ∧ Noticed loop (beginConnect env loop).2 ∧
      (beginConnect env loop).1.clock = env.clock ∧
      (beginConnect env loop).1.requests = env.requests := by
  obtain ⟨scripts, resolutions, henv⟩ := env.lookUp_frame
  have hgentle : ∀ handle : Handle (List Reaction),
      some { id := 0, action := some [.abort] } = some handle →
        handle.action = none ∨ handle.action = some [.abort] := by
    intro handle hhandle
    cases hhandle
    exact .inr rfl
  refine ⟨⟨hyielding.awake, hyielding.mild.of_calls rfl, hgentle⟩, ⟨rfl, [], (List.append_nil _).symm⟩,
    ?_, ?_⟩
  · simp only [Loop.beginConnect, henv]
  · simp only [Loop.beginConnect, henv]

theorem Leaving.exists_task (hleaving : loop.Leaving) (halive : loop.alive = true) :
    ∃ task rest, loop.queue = task :: rest := by
  rcases hleaving.posted halive with h | h
  · exact List.exists_cons_of_ne_nil (List.ne_nil_of_mem h)
  · exact List.exists_cons_of_ne_nil (List.ne_nil_of_mem h)

/-- The next turn of a loop on its way to the end brings it closer, takes no time and sends nothing. -/
theorem Leaving.turn (hleaving : loop.Leaving) (hturn : loop.turn env = some (env', after)) :
    after.Leaving ∧ env'.clock = env.clock ∧ env'.requests = env.requests := by
  have halive : loop.alive = true := by
    unfold Loop.turn at hturn
    split at hturn
    · assumption
    · cases hturn
  obtain ⟨task, rest, hqueue⟩ := hleaving.exists_task halive
  rw [turn_of_task halive hleaving.awake hqueue] at hturn
  have hrest : Yielding { loop with queue := rest } :=
    ⟨hleaving.awake, hleaving.mild.of_calls rfl, hleaving.attempt⟩
  have hnoStart : ∀ id operation, Task.start id operation ∉ rest := by
    intro id operation hmem
    apply hleaving.noStart id operation
    rw [hqueue]
    exact List.mem_cons_of_mem _ hmem
  have hposted : task ≠ .shutdown → task ≠ .stop → .shutdown ∈ rest ∨ .stop ∈ rest := by
    intro hshutdown hstop
    have hsome := hleaving.posted halive
    rw [hqueue, List.mem_cons, List.mem_cons] at hsome
    rcases hsome with (h | h) | (h | h)
    · exact (hshutdown h.symm).elim
    · exact .inl h
    · exact (hstop h.symm).elim
    · exact .inr h
  cases task with
  | connect =>
    obtain ⟨hyielding, hnoticed, hclock, hrequests⟩ := hrest.beginConnect env
    have hafter := Leaving.of_noticed hyielding hnoticed hnoStart fun _ => hposted (by simp) (by simp)
    rw [runTask, Option.some.injEq] at hturn
    rw [hturn] at hafter hclock hrequests
    exact ⟨hafter, hclock, hrequests⟩
  | start id operation =>
    refine (hleaving.noStart id operation ?_).elim
    rw [hqueue]
    exact List.mem_cons_self
  | cancel id =>
    obtain ⟨hyielding, hnoticed⟩ := hrest.cancelled id
    rw [runTask, cancelCall_of_mild hrest.mild] at hturn
    cases hturn
    exact ⟨.of_noticed hyielding hnoticed hnoStart fun _ => hposted (by simp) (by simp), rfl, rfl⟩
  | aborted owner =>
    obtain ⟨hstays, hsame⟩ := deliver_aborted_frame { loop with queue := rest } owner
    rw [runTask] at hturn
    cases hturn
    refine ⟨.of_noticed (hrest.deliver_aborted owner) ⟨hstays, [], ?_⟩ hnoStart fun _ =>
      hposted (by simp) (by simp), rfl, rfl⟩
    rw [hsame]
    simp
  | shutdown =>
    have hhungUp : (Loop.hangUp { loop with queue := rest }).Yielding :=
      ⟨hrest.awake, hrest.mild.of_calls rfl, hrest.attempt⟩
    obtain ⟨last, hcancel, hyielding, hnoticed⟩ := hhungUp.cancelAll env loop.pending
    obtain ⟨owners, hlast⟩ := hnoticed.queue
    have hsame : Loop.pending { loop with queue := rest } = loop.pending := rfl
    rw [runTask, hsame, hcancel] at hturn
    cases hturn
    refine ⟨⟨⟨hyielding.awake, hyielding.mild.of_calls rfl, hyielding.attempt⟩, ?_, ?_⟩, rfl, rfl⟩
    · intro id operation hmem
      rcases List.mem_append.mp hmem with h | h
      · rw [hlast] at h
        rcases List.mem_append.mp h with h | h
        · exact hnoStart id operation h
        · simp at h
      · simp at h
    · exact fun _ => .inr (List.mem_append_right _ (by simp))
  | stop =>
    rw [runTask] at hturn
    cases hturn
    exact ⟨⟨⟨hrest.awake, hrest.mild.of_calls rfl, hrest.attempt⟩, hnoStart, by simp⟩, rfl, rfl⟩

theorem Leaving.ended (hleaving : loop.Leaving) (hrest : loop.turn env = none) :
    loop.alive = false := by
  cases halive : loop.alive with
  | false => rfl
  | true =>
    obtain ⟨task, rest, hqueue⟩ := hleaving.exists_task halive
    rw [turn_of_task halive hleaving.awake hqueue] at hrest
    cases hrest

end Loop

namespace Link

variable {link : Link} {loop : Loop}

/-- Nothing of a loop that gives way is left behind when it is stopped, and no time passes. -/
theorem stopLoop_of_yielding (hlive : link.live = some loop) (halone : link.detached = [])
    (hyielding : loop.Yielding) (hnoStart : ∀ id operation, Task.start id operation ∉ loop.queue) :
    ∃ env, link.stopLoop = { link with env, live := none } ∧
      env.clock = link.env.clock ∧ env.requests = link.env.requests := by
  let holds (env : Environment) (loop : Loop) : Prop :=
    loop.Leaving ∧ env.clock = link.env.clock ∧ env.requests = link.env.requests
  have hturn : ∀ env loop env' loop', holds env loop → loop.turn env = some (env', loop') →
      holds env' loop' := by
    rintro env loop env' loop' ⟨hleaving, hclock, hrequests⟩ hnext
    obtain ⟨hleaving', hclock', hrequests'⟩ := hleaving.turn hnext
    exact ⟨hleaving', hclock'.trans hclock, hrequests'.trans hrequests⟩
  have hstopped : ∀ env loop, holds env loop → loop.turn env = none →
      (link.running env loop).isStopped = true := by
    rintro env loop ⟨hleaving, -, -⟩ hrest
    simp [isStopped, running, hleaving.ended hrest]
  let asked := { link with live := link.live.map Loop.askToStop }
  have hasked : asked.live = some loop.askToStop := by simp [asked, hlive]
  obtain ⟨env, last, hlast, hrest, hend⟩ :=
    @drive_running asked holds isStopped (asked.env.clock + asked.env.span link.limits.join) hturn
      (by
        intro env loop due hnow hrest hready
        rw [show (asked.running env loop).isStopped = true from hstopped env loop hnow hrest] at hready
        cases hready)
      loop.askToStop hasked halone ⟨hyielding.askToStop hnoStart, rfl, rfl⟩
  have hstop : (asked.running env last).isStopped = true := hstopped env last hlast hrest
  obtain ⟨_, hclock, hrequests⟩ := hlast
  rcases hend with ⟨-, hdrive⟩ | ⟨hready, -, -⟩
  · refine ⟨env, ?_, hclock, hrequests⟩
    have hwaited : asked.waitFor link.limits.join isStopped = asked.running env last := hdrive
    simp only [stopLoop]
    rw [hwaited, if_pos hstop]
    rfl
  · rw [hstop] at hready
    cases hready

end Link

end Offload
