import Offload.Proofs.Link.GivenUp
import Offload.Proofs.Link.Passage

namespace Offload

namespace Loop

variable {id own : Nat} {givenUp : Prop} {env env' : Environment} {loop before after : Loop}
  {service : Service}

def waiting (loop : Loop) : List Nat := loop.pending.map (·.handle.id)

theorem call?_isSome_iff : (loop.call? id).isSome = true ↔ id ∈ loop.calls.map (·.handle.id) := by
  rw [call?, List.find?_isSome, List.mem_map]
  simp

theorem call?_of_mem {call : Call} (hdistinct : loop.numbers.Nodup) (hmem : call ∈ loop.calls) :
    loop.call? call.handle.id = some call := by
  have hstarted : (loop.calls.map (·.handle.id)).Nodup := (List.nodup_append.mp hdistinct).1
  rw [call?]
  generalize loop.calls = calls at hmem hstarted
  induction calls with
  | nil => cases hmem
  | cons first rest ih =>
    rw [List.map_cons, List.nodup_cons] at hstarted
    rcases List.mem_cons.mp hmem with rfl | hmem
    · exact List.find?_cons_of_pos (by simp)
    · rw [List.find?_cons_of_neg]
      · exact ih hmem hstarted.2
      · intro hsame
        exact hstarted.1 (List.mem_map.mpr ⟨call, hmem, (of_decide_eq_true hsame).symm⟩)

theorem mem_waiting_iff (hdistinct : loop.numbers.Nodup) :
    id ∈ loop.waiting ↔ (loop.call? id).isSome = true ∧ loop.outcome? id = none := by
  constructor
  · intro hmem
    obtain ⟨call, hpending, rfl⟩ := List.mem_map.mp hmem
    obtain ⟨hcall, hnone⟩ := List.mem_filter.mp hpending
    rw [Loop.outcome?, call?_of_mem hdistinct hcall]
    exact ⟨rfl, Option.isNone_iff_eq_none.mp hnone⟩
  · rintro ⟨hsome, hnone⟩
    obtain ⟨call, hcall⟩ := Option.isSome_iff_exists.mp hsome
    rw [Loop.outcome?, hcall] at hnone
    refine List.mem_map.mpr ⟨call, List.mem_filter.mpr ⟨List.mem_of_find?_eq_some hcall, ?_⟩,
      call?_id hcall⟩
    rw [show call.outcome = none from hnone]
    rfl

theorem waiting_nodup (hdistinct : loop.numbers.Nodup) : loop.waiting.Nodup :=
  (List.filter_sublist.map _).nodup (List.nodup_append.mp hdistinct).1

/-- Nothing on the loop is of the call, or it is an inquiry that has an outcome or was given up. -/
def Ending (loop : Loop) (id : Nat) : Prop := loop.Silent id ∨ loop.Asking id True

theorem Ending.turn (hending : loop.Ending id) (hjoined : loop.Joined service)
    (hturn : loop.turn env = some (env', after)) : after.Ending id :=
  hending.imp (·.turn hjoined hturn) (·.turn hjoined hturn)

theorem Ending.post (hending : loop.Ending id) {task : Task} (htask : task.call? ≠ some id) :
    (loop.post task).Ending id :=
  hending.imp (·.post htask) (·.post htask)

theorem Ending.not_mem_waiting (hending : loop.Ending id) (hdistinct : loop.numbers.Nodup)
    (hrun : loop.queue = []) : id ∉ loop.waiting := by
  intro hmem
  obtain ⟨hcall, hnone⟩ := (mem_waiting_iff hdistinct).mp hmem
  rcases hending with hsilent | hasking
  · rw [hsilent.call] at hcall
    cases hcall
  · have houtcome := hasking.settled_of_run hrun
    rw [hnone] at houtcome
    cases houtcome

/-- Since the earlier loop no call has been posted on it but the given one, and none was forgotten or has
lost its outcome. -/
structure Beside (loop before : Loop) (own : Nat) : Prop where
  numbers : ∀ id ∈ loop.numbers, id ∈ before.numbers ∨ id = own
  started : ∀ id, (before.call? id).isSome = true → (loop.call? id).isSome = true
  kept : ∀ id outcome, before.outcome? id = some outcome → loop.outcome? id = some outcome

theorem Beside.refl (loop : Loop) (own : Nat) : loop.Beside loop own :=
  ⟨fun _ hmem => .inl hmem, fun _ hcall => hcall, fun _ _ houtcome => houtcome⟩

theorem Beside.turn (hbeside : loop.Beside before own) (hjoined : loop.Joined service)
    (hturn : loop.turn env = some (env', after)) : after.Beside before own := by
  obtain ⟨_, _, htakes, hacts, _⟩ := hjoined.turn_acts hturn
  refine ⟨fun id hmem => hbeside.numbers id ?_,
    fun id hcall => (outcome?_turn_of_started (hbeside.started id hcall) hjoined hturn).1,
    fun id outcome houtcome => outcome?_turn (hbeside.kept id outcome houtcome) hjoined hturn⟩
  rwa [hacts.numbers, htakes.numbers] at hmem

theorem Beside.post (hbeside : loop.Beside before own) {task : Task} (htask : task.call? = some own) :
    (loop.post task).Beside before own := by
  refine ⟨fun id hmem => ?_, hbeside.started, hbeside.kept⟩
  rw [numbers_post] at hmem
  rcases List.mem_append.mp hmem with hmem | hmem
  · exact hbeside.numbers id hmem
  · cases task with
    | start number operation =>
      cases htask
      exact .inr (List.mem_singleton.mp hmem)
    | connect | cancel _ | aborted _ | shutdown | stop => cases hmem

end Loop

namespace Link

open Loop

variable {link asked : Link} {loop : Loop}

def waiting (link : Link) : List Nat := (link.live.map Loop.waiting).getD []

theorem inFlight_eq (link : Link) : link.inFlight = link.waiting.length := by
  rw [inFlight, waiting]
  cases link.live with
  | none => rfl
  | some loop => exact (List.length_map _).symm

theorem waiting_of_live (hlive : link.live = some loop) : link.waiting = loop.waiting := by
  rw [waiting, hlive]
  rfl

/-- Everything that was posted on the loop of the connection has run. -/
def HasRun (link : Link) : Prop := ∀ loop, link.live = some loop → loop.queue = []

/-- An inquiry is on its way to its end when its caller has the answer, and what turns and tasks of the
inquiry keep is kept meanwhile. -/
theorem Numbered.call_keeps {holds : Loop → Prop} (hnumbered : link.Numbered)
    (hlive : link.live = some loop) (hholds : holds loop)
    (hturn : ∀ env loop env' after service, loop.Joined service → holds loop →
      loop.turn env = some (env', after) → holds after)
    (hpost : ∀ loop task, task.call? = some (link.dispatched + 1) → holds loop → holds (loop.post task))
    (timeout : Int) (target body : Bytes) :
    ∃ after, (link.call timeout (Operation.ask target body)).2.live = some after ∧
      after.Ending (link.dispatched + 1) ∧ holds after := by
  let own := link.dispatched + 1
  let task : Task := .start own (Operation.ask target body)
  have hcounted := hnumbered loop hlive
  obtain ⟨service, hjoined⟩ := hcounted.joined
  have hsilent : loop.Silent own := hcounted.fresh own (Nat.lt_succ_self _)
  have hasking : (loop.post task).Asking own False :=
    .posted target body _ _ (hsilent.posted _) ⟨List.forall_mem_nil _, False.elim⟩
  have hhanded : (link.handing (Operation.ask target body)).live = some (loop.post task) := by
    rw [Link.handing, Link.post, hlive]
    rfl
  obtain ⟨env, after, detached, _, ⟨hasked, hafter⟩, hwait⟩ :=
    @Numbered.waitFor_keeps _ (fun now => now.Asking own False ∧ holds now) _
      (hnumbered.handing _) hhanded ⟨hasking, hpost loop task rfl hholds⟩
      (fun _ _ _ _ _ hjoined hnow hstep =>
        ⟨hnow.1.turn hjoined hstep, hturn _ _ _ _ _ hjoined hnow.2 hstep⟩)
      timeout (fun now => (now.outcome? own).isSome)
  have hawaited : (link.awaited timeout (Operation.ask target body)).live = some after := by
    rw [awaited, hwait]
  rcases call_of_connected hlive hjoined.connected timeout (Operation.ask target body) with
    ⟨outcome, houtcome, hcall⟩ | ⟨_, entry, hcall⟩
  · rw [outcome?_of_live hawaited] at houtcome
    rw [hcall]
    exact ⟨after, hawaited, .inr (.settled (by rw [houtcome]; rfl)), hafter⟩
  · rw [hcall]
    refine ⟨after.post (.cancel own), ?_, .inr hasked.giveUp, hpost after _ rfl hafter⟩
    rw [Link.post, Link.log, hawaited]
    rfl

theorem Numbered.invoke_keeps {holds : Loop → Prop} (hnumbered : link.Numbered)
    (hlive : link.live = some loop) (hholds : holds loop)
    (hturn : ∀ env loop env' after service, loop.Joined service → holds loop →
      loop.turn env = some (env', after) → holds after)
    (hpost : ∀ loop task, task.call? = some (link.dispatched + 1) → holds loop → holds (loop.post task))
    (method : Bytes) (params : Json) (timeout : Int) :
    ∃ after, (link.invoke method params timeout).2.live = some after ∧
      after.Ending (link.dispatched + 1) ∧ holds after := by
  unfold Link.invoke
  split
  · exact hnumbered.call_keeps hlive hholds hturn hpost timeout _ _
  · exact ⟨loop, hlive, .inl ((hnumbered loop hlive).fresh _ (Nat.lt_succ_self _)), hholds⟩

theorem invoke_of_apart (hlive : link.live = none) (method : Bytes) (params : Json)
    (timeout : Int) : (link.invoke method params timeout).2 = link := by
  unfold Link.invoke
  split
  · rw [call_of_apart hlive]
  · rfl

/-- All calls on the loop of the connection come to an end, if they have not yet. -/
structure Tidy (link : Link) : Prop where
  numbered : link.Numbered
  ending : ∀ loop, link.live = some loop → ∀ id, loop.Ending id

theorem Tidy.of_apart (hlive : link.live = none) : link.Tidy := by
  refine ⟨.of_apart hlive, fun loop hloop => ?_⟩
  rw [hlive] at hloop
  cases hloop

theorem Tidy.env (htidy : link.Tidy) (env : Environment) : Tidy { link with env } :=
  ⟨htidy.numbered, htidy.ending⟩

theorem Tidy.waitFor (htidy : link.Tidy) (milliseconds : Int) (ready : Link → Bool) :
    (link.waitFor milliseconds ready).Tidy := by
  cases hlive : link.live with
  | none =>
    obtain ⟨env, detached, hwaited⟩ := waitFor_apart hlive milliseconds ready
    rw [hwaited]
    exact .of_apart hlive
  | some loop =>
    obtain ⟨env, after, detached, _, hafter, hwait⟩ :=
      @Numbered.waitFor_keeps link (fun now => ∀ id, now.Ending id) loop htidy.numbered hlive
        (htidy.ending loop hlive)
        (fun _ _ _ _ _ hjoined hnow hturn id => (hnow id).turn hjoined hturn) milliseconds ready
    refine ⟨htidy.numbered.waitFor milliseconds ready, fun other hother => ?_⟩
    rw [hwait] at hother
    cases hother
    exact hafter

theorem Tidy.invoke (htidy : link.Tidy) (method : Bytes) (params : Json) (timeout : Int) :
    (link.invoke method params timeout).2.Tidy := by
  refine ⟨htidy.numbered.invoke method params timeout, ?_⟩
  cases hlive : link.live with
  | none =>
    rw [invoke_of_apart hlive]
    exact htidy.ending
  | some loop =>
    have hforeign : ∀ task : Task, task.call? = some (link.dispatched + 1) → ∀ id,
        id ≠ link.dispatched + 1 → task.call? ≠ some id := by
      intro task htask id hid
      rw [htask]
      rintro ⟨⟩
      exact hid rfl
    obtain ⟨after, hafter, hown, hothers⟩ := @Numbered.invoke_keeps link loop
      (fun now => ∀ id, id ≠ link.dispatched + 1 → now.Ending id) htidy.numbered hlive
      (fun id _ => htidy.ending loop hlive id)
      (fun _ _ _ _ _ hjoined hnow hturn id hid => (hnow id hid).turn hjoined hturn)
      (fun _ task htask hnow id hid => (hnow id hid).post (hforeign task htask id hid))
      method params timeout
    intro other hother id
    cases hafter.symm.trans hother
    by_cases hid : id = link.dispatched + 1
    · exact hid ▸ hown
    · exact hothers id hid

theorem tidy_attach (link : Link) (host : Bytes) (port : UInt16) : (link.attach host port).2.Tidy := by
  refine ⟨link.numbered_attach host port, fun other hother id => ?_⟩
  rcases link.attach_cases host port with ⟨env, detached, hattach⟩ |
      ⟨env, loop, detached, service, hattach, _, _, hgreeting, hverdict⟩
  · rw [hattach] at hother
    cases hother
  · rw [hattach] at hother
    cases hother
    exact .inl (hgreeting.silent hverdict id)

theorem Tidy.connect (htidy : link.Tidy) (host : Bytes) (port : UInt16) :
    (link.connect host port).2.Tidy := by
  unfold Link.connect
  split
  · split
    · exact htidy
    · exact tidy_attach _ host port
  · exact tidy_attach _ host port

end Link

end Offload
