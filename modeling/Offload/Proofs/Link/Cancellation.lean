import Offload.Proofs.Link.Books

namespace Offload

open Loop

namespace Loop

variable {env env' : Environment} {loop after : Loop} {service : Service} {receipts : List Receipt}
  {ids : List Nat} {own : Nat}

/-- These are the calls on the loop, and of those with a receipt inquiries come to an end. -/
structure Lists (receipts : List Receipt) (ids : List Nat) (loop : Loop) : Prop where
  numbers : loop.numbers = ids
  ending : ∀ receipt ∈ receipts, receipt.IsInquiry → loop.Ending receipt.id

theorem Lists.turn (hlists : loop.Lists receipts ids) (hjoined : loop.Joined service)
    (hturn : loop.turn env = some (env', after)) : after.Lists receipts ids := by
  obtain ⟨_, _, htakes, hacts, _⟩ := hjoined.turn_acts hturn
  refine ⟨?_, fun receipt hmem hinquiry => (hlists.ending receipt hmem hinquiry).turn hjoined hturn⟩
  rw [hacts.numbers, htakes.numbers, hlists.numbers]

theorem Lists.post (hlists : loop.Lists receipts ids) {task : Task} (htask : task.call? = some own)
    (hnew : ∀ receipt ∈ receipts, receipt.id ≠ own) :
    (loop.post task).Lists receipts (ids ++ task.started?.toList) := by
  refine ⟨?_, fun receipt hmem hinquiry => (hlists.ending receipt hmem hinquiry).post fun hown => ?_⟩
  · rw [numbers_post, hlists.numbers]
  · exact hnew receipt hmem (Option.some.inj (hown.symm.trans htask))

end Loop

namespace Link

variable {link : Link} {books : Books} {loop : Loop} {receipts : List Receipt} {operation : Operation}

/-- The receipts are those of the calls on the loop of the connection. -/
structure Listed (receipts : List Receipt) (link : Link) : Prop where
  lists : ∀ loop, link.live = some loop → loop.Lists receipts (receipts.map (·.id))
  apart : link.live = none → receipts = []

theorem Listed.of_apart (hlive : link.live = none) : Listed [] link := by
  refine ⟨fun loop hloop => ?_, fun _ => rfl⟩
  rw [hlive] at hloop
  cases hloop

theorem Listed.waitFor (hlisted : Listed receipts link) (hnumbered : link.Numbered)
    (milliseconds : Int) (ready : Link → Bool) : Listed receipts (link.waitFor milliseconds ready) := by
  cases hlive : link.live with
  | none =>
    obtain ⟨env, detached, hwaited⟩ := waitFor_apart hlive milliseconds ready
    rw [hlisted.apart hlive, hwaited]
    exact .of_apart hlive
  | some loop =>
    obtain ⟨env, after, detached, _, hafter, hwait⟩ := hnumbered.waitFor_keeps hlive
      (hlisted.lists loop hlive) (fun _ _ _ _ _ hjoined hnow hturn => hnow.turn hjoined hturn)
      milliseconds ready
    rw [hwait]
    exact ⟨fun other hother => by cases hother; exact hafter, fun hnone => by cases hnone⟩

theorem listed_attach (link : Link) (host : Bytes) (port : UInt16) :
    Listed [] (link.attach host port).2 := by
  rcases link.attach_cases host port with ⟨env, detached, hattach⟩ |
      ⟨env, loop, detached, service, hattach, _, _, hgreeting, hverdict⟩
  · rw [hattach]
    exact .of_apart rfl
  · have hempty : loop.numbers = [] := List.eq_nil_iff_forall_not_mem.mpr fun id =>
      (hgreeting.silent hverdict id).not_mem_numbers
    rw [hattach]
    refine ⟨fun other hother => ?_, fun _ => rfl⟩
    cases hother
    exact ⟨hempty, List.forall_mem_nil _⟩

/-- A call over a connection is on its loop, and an inquiry comes to an end there. -/
theorem Listed.call_of_live (hlisted : Listed receipts link) (hnumbered : link.Numbered)
    (hlive : link.live = some loop) (timeout : Int) (operation : Operation) :
    Listed (receipts ++ link.receipts timeout operation) (link.call timeout operation).2 := by
  have hcounted := hnumbered loop hlive
  obtain ⟨service, hjoined⟩ := hcounted.joined
  have hlists := hlisted.lists loop hlive
  have hunused := (hcounted.fresh (link.dispatched + 1) (Nat.lt_succ_self _)).not_mem_numbers
  have hnew : ∀ receipt ∈ receipts, receipt.id ≠ link.dispatched + 1 := by
    intro receipt hmem hid
    rw [hlists.numbers] at hunused
    exact hunused (hid ▸ List.mem_map_of_mem hmem)
  obtain ⟨env, now, detached, _, hnow, hwait⟩ :=
    @Numbered.waitFor_keeps _ (·.Lists receipts (receipts.map (·.id) ++ [link.dispatched + 1])) _
      (hnumbered.handing operation) (handing_live hlive operation)
      (hlists.post (rfl : (Task.start (link.dispatched + 1) operation).call? = _) hnew)
      (fun _ _ _ _ _ hjoined hnow hturn => hnow.turn hjoined hturn) timeout
      (fun now => (now.outcome? (link.dispatched + 1)).isSome)
  have hawaited : (link.awaited timeout operation).live = some now := by rw [Link.awaited, hwait]
  have hreceipts := receipts_of_connected hlive hjoined.connected timeout operation
  have hcalled : ∃ after, (link.call timeout operation).2.live = some after ∧
      after.Lists receipts (receipts.map (·.id) ++ [link.dispatched + 1]) := by
    rcases call_of_connected hlive hjoined.connected timeout operation with
      ⟨outcome, _, hcall⟩ | ⟨_, entry, hcall⟩
    · rw [hcall]
      exact ⟨now, hawaited, hnow⟩
    · have hposted := hnow.post (rfl : (Task.cancel (link.dispatched + 1)).call? = _) hnew
      rw [hcall]
      refine ⟨now.post (.cancel (link.dispatched + 1)), ?_, ?_⟩
      · rw [Link.post, Link.log, hawaited]
        rfl
      · simpa only [Task.started?, Option.toList_none, List.append_nil] using hposted
  obtain ⟨after, hafter, hknown⟩ := hcalled
  rw [hreceipts]
  refine ⟨fun other hother => ?_, fun hnone => ?_⟩
  · cases hafter.symm.trans hother
    refine ⟨by rw [hknown.numbers, List.map_append]; rfl, fun receipt hmem hinquiry => ?_⟩
    rcases List.mem_append.mp hmem with hmem | hmem
    · exact hknown.ending receipt hmem hinquiry
    · rw [List.mem_singleton.mp hmem] at hinquiry ⊢
      obtain ⟨target, body, rfl⟩ := hinquiry
      obtain ⟨last, hlast, hending, _⟩ := @Numbered.call_keeps _ _ (fun _ => True) hnumbered hlive trivial
        (fun _ _ _ _ _ _ _ _ => trivial) (fun _ _ _ _ => trivial) timeout target body
      cases hafter.symm.trans hlast
      exact hending
  · rw [hafter] at hnone
    cases hnone

theorem Listed.call (hlisted : Listed receipts link) (hnumbered : link.Numbered) (timeout : Int)
    (operation : Operation) :
    Listed (receipts ++ link.receipts timeout operation) (link.call timeout operation).2 := by
  cases hlive : link.live with
  | none =>
    rw [call_of_apart hlive, receipts_of_apart hlive, List.append_nil]
    exact hlisted
  | some loop => exact hlisted.call_of_live hnumbered hlive timeout operation

theorem Listed.perform (hlisted : Listed books.present link) {account : Account}
    (htracked : Tracked link account) (command : Command) :
    Listed (books.next link command).present (link.perform command) := by
  cases command with
  | connect host port =>
    simp only [Books.next, Link.perform, Link.connect]
    cases hconnected : link.isConnected with
    | false => exact listed_attach link host port
    | true =>
      simp only [if_true, true_and]
      split
      · exact hlisted
      · exact listed_attach link.disconnect host port
  | disconnect =>
    obtain ⟨env, detached, hdisconnect⟩ := link.disconnect_eq
    rw [Link.perform, hdisconnect]
    exact .of_apart rfl
  | call timeout operation => exact hlisted.call htracked.numbered timeout operation
  | invoke method params timeout =>
    rw [Link.perform, Books.next, Link.invoke]
    cases params.dump .compact with
    | ok body => exact hlisted.call htracked.numbered timeout _
    | error fault => exact hlisted
  | wait milliseconds ready => exact hlisted.waitFor htracked.numbered milliseconds ready
  | lay scripts resolutions starts => exact ⟨hlisted.lists, hlisted.apart⟩

theorem Booked.listed (hbooked : Booked link books) : Listed books.present link := by
  induction hbooked with
  | opened env limits => exact .of_apart rfl
  | step hbooked command ih =>
    obtain ⟨account, htracked⟩ := hbooked.tracked
    exact ih.perform htracked command

/-- The cancellation of a call that was given up is carried out once, by the time that its loop has run
it; before that, or if the call does not start, nothing is carried out. -/
theorem Followed.marks_of_missed {id : Nat} {marks : List Mark} {loops : List Loop}
    (hfollowed : Followed id operation .missed marks loops) :
    marks = [] ∨ marks = [.started] ∧ (∃ loop ∈ loops, .cancel id ∈ loop.queue) ∨
      marks = operation.cancelledMarks := by
  induction hfollowed with
  | gone hfinished =>
    cases hfinished with
    | unstarted => exact .inl rfl
    | cancelled => exact .inr (.inr rfl)
  | here hcourse hforeign =>
    cases hcourse with
    | posted => exact .inl rfl
    | underway _ _ _ _ _ hbehind =>
      exact .inr (.inl ⟨rfl, _, List.mem_cons_self, hbehind.cancel_mem⟩)
    | cancelled => exact .inr (.inr rfl)
  | beyond hforeign hrest ih =>
    rcases ih with h | ⟨h, loop, hmem, hposted⟩ | h
    · exact .inl h
    · exact .inr (.inl ⟨h, loop, List.mem_cons_of_mem _ hmem, hposted⟩)
    · exact .inr (.inr h)

theorem Followed.marks_of_met {id : Nat} {marks : List Mark} {loops : List Loop}
    (hfollowed : Followed id operation .met marks loops) : marks = [.started] := by
  induction hfollowed with
  | gone hfinished =>
    cases hfinished
    rfl
  | here hcourse hforeign => exact hcourse.of_met.2
  | beyond hforeign hrest ih => exact ih

theorem Sound.course (hsound : Sound link books) (hlive : link.live = some loop) {receipt : Receipt}
    (hmem : receipt ∈ books.present) :
    loop.Course receipt.id receipt.operation receipt.term (ofCall receipt.id books.record) := by
  obtain ⟨first, rest, hloops, hcourse, _⟩ := hsound.present receipt hmem
  rw [loops_of_live hlive] at hloops
  obtain ⟨rfl, _⟩ := List.cons.inj hloops
  exact hcourse

/-- What is in flight, once everything that was posted has run. -/
theorem Sound.inFlight_eq (hsound : Sound link books) (hlisted : Listed books.present link)
    (hnumbered : link.Numbered) (hrun : link.HasRun) :
    link.inFlight = (books.present.filter fun receipt =>
      receipt.late && (link.outcome? receipt.id).isNone).length := by
  cases hlive : link.live with
  | none =>
    rw [hlisted.apart hlive, inFlight, hlive]
    rfl
  | some loop =>
    have hdistinct := (hnumbered loop hlive).distinct
    have hnumbers := (hlisted.lists loop hlive).numbers
    have hstarted : loop.calls.map (·.handle.id) = books.present.map (·.id) := by
      rwa [Loop.numbers, hrun loop hlive, List.filterMap_nil, List.append_nil] at hnumbers
    have hreceipts : (books.present.map (·.id)).Nodup := hnumbers ▸ hdistinct
    have hperm : loop.waiting.Perm ((books.present.filter fun receipt =>
        receipt.late && (link.outcome? receipt.id).isNone).map (·.id)) := by
      refine (List.perm_ext_iff_of_nodup (waiting_nodup hdistinct)
        ((List.filter_sublist.map _).nodup hreceipts)).mpr fun id => ?_
      rw [mem_waiting_iff hdistinct, List.mem_map]
      constructor
      · rintro ⟨hcall, hnone⟩
        have hknown := call?_isSome_iff.mp hcall
        rw [hstarted] at hknown
        obtain ⟨receipt, hmem, rfl⟩ := List.mem_map.mp hknown
        refine ⟨receipt, List.mem_filter.mpr ⟨hmem, ?_⟩, rfl⟩
        rw [outcome?_of_live hlive, hnone]
        cases hlate : receipt.late with
        | true => rfl
        | false =>
          have hcourse := hsound.course hlive hmem
          rw [Receipt.term, hlate] at hcourse
          exact (hcourse.of_met.1 ((mem_waiting_iff hdistinct).mpr ⟨hcall, hnone⟩)).elim
      · rintro ⟨receipt, hfiltered, rfl⟩
        obtain ⟨hmem, hpending⟩ := List.mem_filter.mp hfiltered
        rw [Bool.and_eq_true, outcome?_of_live hlive, Option.isNone_iff_eq_none] at hpending
        refine ⟨call?_isSome_iff.mpr ?_, hpending.2⟩
        rw [hstarted]
        exact List.mem_map_of_mem hmem
    rw [Link.inFlight_eq, waiting_of_live hlive, hperm.length_eq, List.length_map]

/-- An inquiry has its outcome once everything that was posted has run, given up or not. -/
theorem Listed.outcome_of_inquiry (hlisted : Listed receipts link) (hnumbered : link.Numbered)
    (hrun : link.HasRun) {receipt : Receipt} (hmem : receipt ∈ receipts) (hinquiry : receipt.IsInquiry) :
    (link.outcome? receipt.id).isSome = true := by
  cases hlive : link.live with
  | none =>
    rw [hlisted.apart hlive] at hmem
    cases hmem
  | some loop =>
    have hdistinct := (hnumbered loop hlive).distinct
    have hlists := hlisted.lists loop hlive
    have hended := (hlists.ending receipt hmem hinquiry).not_mem_waiting hdistinct (hrun loop hlive)
    have hcall : (loop.call? receipt.id).isSome = true := by
      have hnumbers := hlists.numbers
      rw [Loop.numbers, hrun loop hlive, List.filterMap_nil, List.append_nil] at hnumbers
      rw [call?_isSome_iff, hnumbers]
      exact List.mem_map_of_mem hmem
    rw [mem_waiting_iff hdistinct] at hended
    rw [outcome?_of_live hlive, Option.isSome_iff_ne_none]
    exact fun hnone => hended ⟨hcall, hnone⟩

theorem receipts_answer (hnumbered : link.Numbered) (timeout : Int) (operation : Operation)
    {receipt : Receipt} (hmem : receipt ∈ link.receipts timeout operation) :
    if receipt.late then (link.call timeout operation).1 = .error (.callTimeout timeout)
    else ((link.awaited timeout operation).outcome? receipt.id).map link.conclude =
      some (link.call timeout operation).1 := by
  cases hlive : link.live with
  | none =>
    rw [receipts_of_apart hlive] at hmem
    cases hmem
  | some loop =>
    obtain ⟨service, hjoined⟩ := (hnumbered loop hlive).joined
    rw [receipts_of_connected hlive hjoined.connected] at hmem
    rw [List.mem_singleton.mp hmem]
    rcases call_of_connected hlive hjoined.connected timeout operation with
      ⟨outcome, houtcome, hcall⟩ | ⟨houtcome, entry, hcall⟩
    · rw [hcall, houtcome]
      rfl
    · rw [hcall, houtcome]
      rfl

/-- Cancellation and what is in flight, exactly. Over any run of a link, a call that was given up carries
out once what it registered last for its cancellation, as soon as its loop has run that, and at most once
whatever follows; one whose caller was answered never does. When everything that was posted has run, the
calls in flight are those of the connection that were given up and have no outcome yet. Invocations are not
among them, so that without other calls nothing is in flight then, and nothing is after a disconnect. -/
theorem cancellation_exact (hbooked : Booked link books) :
    link.env.signals = books.before + signalled books.record ∧
      (∀ receipt ∈ books.receipts,
        if receipt.late then
          ofCall receipt.id books.record = [] ∨
            ofCall receipt.id books.record = [.started] ∧
              (∃ loop ∈ link.loops, .cancel receipt.id ∈ loop.queue) ∨
            ofCall receipt.id books.record = receipt.operation.cancelledMarks
        else ofCall receipt.id books.record = [.started]) ∧
      (link.HasRun →
        (∀ receipt ∈ books.present, receipt.late = true →
          ofCall receipt.id books.record = receipt.operation.cancelledMarks) ∧
        link.inFlight = (books.present.filter fun receipt =>
          receipt.late && (link.outcome? receipt.id).isNone).length ∧
        (∀ receipt ∈ books.present, receipt.IsInquiry → (link.outcome? receipt.id).isSome = true) ∧
        ((∀ receipt ∈ books.present, receipt.late = true → receipt.IsInquiry) → link.inFlight = 0)) ∧
      link.disconnect.inFlight = 0 ∧
      (∀ receipt ∈ books.receipts, receipt.late = true → link.disconnect.detached = [] →
        ofCall receipt.id (books.record ++ link.disconnectMarks) = [] ∨
          ofCall receipt.id (books.record ++ link.disconnectMarks) = receipt.operation.cancelledMarks) ∧
      ∀ timeout operation, ∀ receipt ∈ link.receipts timeout operation,
        if receipt.late then (link.call timeout operation).1 = .error (.callTimeout timeout)
        else ((link.awaited timeout operation).outcome? receipt.id).map link.conclude =
          some (link.call timeout operation).1 := by
  obtain ⟨account, htracked⟩ := hbooked.tracked
  have hsound := hbooked.sound
  have hlisted := hbooked.listed
  have hnumbered := htracked.numbered
  obtain ⟨env, detached, hdisconnect⟩ := link.disconnect_eq
  refine ⟨hsound.signals, fun receipt hmem => ?_, fun hrun => ⟨fun receipt hmem hlate => ?_, ?_,
    fun receipt hmem hinquiry => hlisted.outcome_of_inquiry hnumbered hrun hmem hinquiry,
    fun hinquiries => ?_⟩, by rw [hdisconnect]; rfl, fun receipt hmem hlate hnone => ?_,
    fun timeout operation receipt hmem => receipts_answer hnumbered timeout operation hmem⟩
  · have hfollowed := hsound.followed hmem
    unfold Receipt.term at hfollowed
    split
    · next hlate =>
      rw [if_pos hlate] at hfollowed
      exact hfollowed.marks_of_missed
    · next hmet =>
      rw [if_neg hmet] at hfollowed
      exact hfollowed.marks_of_met
  · cases hlive : link.live with
    | none =>
      rw [hlisted.apart hlive] at hmem
      cases hmem
    | some loop =>
      have hcourse := hsound.course hlive hmem
      rw [Receipt.term, if_pos hlate] at hcourse
      exact hcourse.cancelled_of_run (hrun loop hlive)
  · exact hsound.inFlight_eq hlisted hnumbered hrun
  · rw [hsound.inFlight_eq hlisted hnumbered hrun, List.length_eq_zero_iff, List.filter_eq_nil_iff]
    intro receipt hmem hpending
    rw [Bool.and_eq_true, Option.isNone_iff_eq_none] at hpending
    have hended := hlisted.outcome_of_inquiry hnumbered hrun hmem (hinquiries receipt hmem hpending.1)
    rw [hpending.2] at hended
    cases hended
  · have hfollowed := hsound.disconnect.followed
      (show receipt ∈ (books.note link.disconnectMarks).close.receipts by
        rw [Books.receipts, Books.close, List.append_nil]
        exact hmem)
    have hloops : link.disconnect.loops = [] := by
      rw [loops, hnone, hdisconnect]
      rfl
    rw [Receipt.term, if_pos hlate, hloops] at hfollowed
    rcases hfollowed.marks_of_missed with h | ⟨_, loop, hloop, _⟩ | h
    · exact .inl h
    · cases hloop
    · exact .inr h

/-- A link on which a call that never completes was given up, and its books. -/
def busy : Link × Books :=
  polite.keepBooks { before := 0 } [.connect (utf8 "peer") 7000, .call 10 [.onCancel [.signal]],
    .lay [{ conduct := .silence }] []]

def waited : Link × Books :=
  busy.1.keepBooks busy.2 [.invoke (utf8 "ping") .null 10, .wait 0 fun _ => true]

theorem booked_busy : Booked busy.1 busy.2 := (Booked.opened polite.env {}).keepBooks _

theorem booked_waited : Booked waited.1 waited.2 := booked_busy.keepBooks _

theorem hasRun_waited : waited.1.HasRun := by
  have hempty : waited.1.live.all (·.queue.isEmpty) = true := by decide +kernel
  intro loop hlive
  rw [hlive] at hempty
  exact List.isEmpty_iff.mp hempty

/-- Both calls were cancelled, and the first of them is still in flight. -/
theorem cancellation_exact_waited :
    Booked waited.1 waited.2 ∧ waited.1.HasRun ∧
      waited.2.present.map (fun receipt => (receipt.id, receipt.late)) = [(1, true), (2, true)] ∧
      (∀ receipt ∈ waited.2.present,
        ofCall receipt.id waited.2.record = receipt.operation.cancelledMarks) ∧
      waited.1.inFlight = 1 ∧ waited.1.env.signals = 1 := by
  have hlate : ∀ receipt ∈ waited.2.present, receipt.late = true := by
    have hall : waited.2.present.all (·.late) = true := by decide +kernel
    exact List.all_eq_true.mp hall
  obtain ⟨hsignals, _, hran, _⟩ := cancellation_exact booked_waited
  obtain ⟨hcancelled, hinFlight, _⟩ := hran hasRun_waited
  refine ⟨booked_waited, hasRun_waited, by decide +kernel,
    fun receipt hmem => hcancelled receipt hmem (hlate receipt hmem), ?_, ?_⟩
  · rw [hinFlight]
    decide +kernel
  · rw [hsignals]
    decide +kernel

/-- An invocation is given up, its loop runs everything, and the call before it is still in flight. -/
theorem inFlight_after_late_invocation :
    let invoked := busy.1.invoke (utf8 "ping") .null 10
    Booked busy.1 busy.2 ∧ invoked.1 = .error (.callTimeout 10) ∧
      (invoked.2.waitFor 0 fun _ => true).HasRun ∧
      (invoked.2.waitFor 0 fun _ => true).inFlight ≠ 0 := by
  obtain ⟨account, htracked⟩ := booked_busy.tracked
  let asking := Operation.ask (utf8 "/rpc/" ++ utf8 "ping") (utf8 "null")
  have hlate : (busy.1.receipts 10 asking).map (·.late) = [true] := by decide +kernel
  have hcalled : (busy.1.call 10 asking).1 = .error (.callTimeout 10) := by
    obtain ⟨receipt, hmem, hpast⟩ := List.mem_map.mp (hlate ▸ List.mem_singleton_self true)
    have hanswer := receipts_answer htracked.numbered 10 asking hmem
    rwa [if_pos hpast] at hanswer
  exact ⟨booked_busy, hcalled, hasRun_waited, by decide +kernel⟩

end Link

end Offload
