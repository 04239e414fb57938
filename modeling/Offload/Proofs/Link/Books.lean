import Offload.Proofs.Link.Followed

namespace Offload

open Loop

/-- A call that was made over a connection. -/
structure Receipt where
  id : Nat
  operation : Operation
  /-- It had no outcome when its time was over. -/
  late : Bool

def Receipt.IsInquiry (receipt : Receipt) : Prop :=
  ∃ target body, receipt.operation = Operation.ask target body

def Receipt.term (receipt : Receipt) : Term := if receipt.late then .missed else .met

theorem Receipt.term_ne_running (receipt : Receipt) : receipt.term ≠ .running := by
  unfold Receipt.term
  split <;> exact fun h => by cases h

/-- The receipts of a link, and the record of what happened to its calls. -/
structure Books where
  before : Nat
  past : List Receipt := []
  present : List Receipt := []
  record : Record := []

namespace Books

def note (books : Books) (record : Record) : Books := { books with record := books.record ++ record }

def enter (books : Books) (receipts : List Receipt) : Books :=
  { books with present := books.present ++ receipts }

def close (books : Books) : Books := { books with past := books.past ++ books.present, present := [] }

def receipts (books : Books) : List Receipt := books.past ++ books.present

end Books

namespace Link

/-- The receipt of a call, if it is made over a connection. -/
def receipts (link : Link) (timeout : Int) (operation : Operation) : List Receipt :=
  if (link.live.map (·.connected)).getD false then
    let outcome := (link.awaited timeout operation).outcome? (link.dispatched + 1)
    [⟨link.dispatched + 1, operation, outcome.isNone⟩]
  else []

end Link

/-- The books after one operation on a link. -/
def Books.next (books : Books) (link : Link) (command : Link.Command) : Books :=
  let noted := books.note (link.marksOf command)
  match command with
  | .connect host port =>
    if link.isConnected ∧ host = link.host ∧ port = link.port then noted else noted.close
  | .disconnect => noted.close
  | .invoke method params timeout =>
    match params.dump .compact with
    | .ok body => noted.enter (link.receipts timeout (Operation.ask (utf8 "/rpc/" ++ method) body))
    | .error _ => noted
  | .call timeout operation => noted.enter (link.receipts timeout operation)
  | .wait _ _ | .lay _ _ _ => noted

namespace Link

/-- Links as they come about, each with the books of the operations on it. -/
inductive Booked : Link → Books → Prop
  | opened (env : Environment) (limits : Limits) : Booked { env, limits } { before := env.signals }
  | step {link : Link} {books : Books} (hbooked : Booked link books) (command : Command) :
    Booked (link.perform command) (books.next link command)

variable {link : Link} {books : Books} {loop : Loop} {operation : Operation} {timeout : Int}

def keepBooks (link : Link) (books : Books) : List Command → Link × Books
  | [] => (link, books)
  | command :: rest => keepBooks (link.perform command) (books.next link command) rest

theorem Booked.keepBooks (hbooked : Booked link books) (commands : List Command) :
    Booked (link.keepBooks books commands).1 (link.keepBooks books commands).2 := by
  induction commands generalizing link books with
  | nil => exact hbooked
  | cons command rest ih => exact ih (hbooked.step command)

theorem Booked.tracked (hbooked : Booked link books) : ∃ account, Tracked link account := by
  induction hbooked with
  | opened env limits => exact ⟨_, .opened env limits⟩
  | step _ command ih =>
    obtain ⟨account, htracked⟩ := ih
    exact ⟨_, htracked.step command⟩

theorem Tracked.apart {account : Account} (htracked : Tracked link account)
    (hconnected : link.isConnected = false) : link.live = none := by
  rcases htracked.fits.phase_cases with ⟨_, h⟩ | ⟨_, _, hlive⟩
  · rw [hconnected] at h
    cases h
  · exact hlive

/-- The books are right about where the calls are and what has happened to them, and calls to come have
not been heard of. -/
structure Sound (link : Link) (books : Books) : Prop where
  signals : link.env.signals = books.before + signalled books.record
  past : ∀ receipt ∈ books.past, Followed receipt.id receipt.operation receipt.term
    (ofCall receipt.id books.record) link.loops
  present : ∀ receipt ∈ books.present, Leads receipt.id receipt.operation receipt.term
    (ofCall receipt.id books.record) link.loops
  bounded : ∀ receipt ∈ books.receipts, receipt.id ≤ link.dispatched
  fresh : ∀ id, link.dispatched < id →
    ofCall id books.record = [] ∧ ∀ loop ∈ link.loops, loop.Foreign id

theorem Sound.followed (hsound : Sound link books) {receipt : Receipt} (hmem : receipt ∈ books.receipts) :
    Followed receipt.id receipt.operation receipt.term (ofCall receipt.id books.record) link.loops := by
  rcases List.mem_append.mp hmem with hmem | hmem
  · exact hsound.past receipt hmem
  · exact (hsound.present receipt hmem).followed

theorem Sound.waitFor (hsound : Sound link books) (milliseconds : Int) (ready : Link → Bool) :
    Sound (link.waitFor milliseconds ready) (books.note (link.waitMarks milliseconds ready)) := by
  obtain ⟨env, live, detached, hwait⟩ := link.waitFor_eq milliseconds ready
  have hdispatched : (link.waitFor milliseconds ready).dispatched = link.dispatched := by rw [hwait]
  refine ⟨?_, fun receipt hmem => ?_, fun receipt hmem => ?_, fun receipt hmem => ?_, fun id hlater => ?_⟩
  · exact (kept_signals books.before).toLasts.waitFor hsound.signals milliseconds ready
  · exact (kept_followed receipt.id receipt.operation receipt.term_ne_running).toLasts.waitFor
      (hsound.past receipt hmem) milliseconds ready
  · exact (lasts_leads receipt.id receipt.operation receipt.term).waitFor
      (hsound.present receipt hmem) milliseconds ready
  · rw [hdispatched]
    exact hsound.bounded receipt hmem
  · rw [hdispatched] at hlater
    exact (kept_foreign id []).toLasts.waitFor (hsound.fresh id hlater) milliseconds ready

theorem loops_of_live (hlive : link.live = some loop) : link.loops = loop :: link.detached := by
  rw [loops, hlive]
  rfl

theorem Sound.post (hsound : Sound link books) (hlive : link.live = some loop) {task : Task}
    (hknown : ∀ receipt ∈ books.receipts, ¬ task.Concerns receipt.id)
    (hlater : ∀ id, link.dispatched < id → ¬ task.Concerns id) : Sound (link.post task) books := by
  obtain ⟨hsignals, hpast, hpresent, hbounded, hfresh⟩ := hsound
  have hloops : (link.post task).loops = loop.post task :: link.detached := by
    rw [loops, Link.post, hlive]
    rfl
  rw [loops_of_live hlive] at hpast hpresent hfresh
  refine ⟨hsignals, fun receipt hmem => ?_, fun receipt hmem => ?_, hbounded, fun id hid => ?_⟩
  · rw [hloops]
    exact (hpast receipt hmem).post receipt.term_ne_running
      (hknown receipt (List.mem_append_left _ hmem))
  · rw [hloops]
    exact (hpresent receipt hmem).post receipt.term_ne_running
      (hknown receipt (List.mem_append_right _ hmem))
  · rw [hloops]
    obtain ⟨hnone, hforeign⟩ := hfresh id hid
    rw [List.forall_mem_cons] at hforeign
    exact ⟨hnone, List.forall_mem_cons.mpr ⟨Quiet.post hforeign.1 (hlater id hid), hforeign.2⟩⟩

theorem Sound.close (hsound : Sound link books) : Sound link books.close := by
  refine ⟨hsound.signals, fun receipt hmem => hsound.followed hmem, List.forall_mem_nil _,
    fun receipt hmem => hsound.bounded receipt ?_, hsound.fresh⟩
  rwa [Books.receipts, Books.close, List.append_nil] at hmem

theorem Sound.disconnect (hsound : Sound link books) :
    Sound link.disconnect (books.note link.disconnectMarks).close := by
  obtain ⟨env, detached, hdisconnect⟩ := link.disconnect_eq
  have hdispatched : link.disconnect.dispatched = link.dispatched := by rw [hdisconnect]
  have hclosed := hsound.close
  refine ⟨(kept_signals books.before).disconnect hsound.signals, fun receipt hmem => ?_,
    List.forall_mem_nil _, fun receipt hmem => ?_, fun id hlater => ?_⟩
  · exact (kept_followed receipt.id receipt.operation receipt.term_ne_running).disconnect
      (hclosed.past receipt hmem)
  · rw [hdispatched]
    exact hclosed.bounded receipt hmem
  · rw [hdispatched] at hlater
    exact (kept_foreign id []).disconnect (hsound.fresh id hlater)

theorem connect_dispatched (link : Link) (host : Bytes) (port : UInt16) :
    (link.connect host port).2.dispatched = link.dispatched := by
  have hattach : ∀ now : Link, (now.attach host port).2.dispatched = now.dispatched := by
    intro now
    rcases now.attach_cases host port with ⟨env, detached, h⟩ | ⟨env, loop, detached, service, h, _⟩ <;>
      rw [h]
  obtain ⟨env, detached, hdisconnect⟩ := link.disconnect_eq
  unfold Link.connect
  split
  · split
    · rfl
    · rw [hattach, hdisconnect]
  · exact hattach link

theorem Sound.connect (hsound : Sound link books) (hapart : link.isConnected = false → link.live = none)
    (host : Bytes) (port : UInt16) :
    Sound (link.connect host port).2 (books.next link (.connect host port)) := by
  simp only [Books.next]
  split
  · next hsame =>
    have hconnect : link.connect host port = (true, link) := by
      rw [Link.connect, if_pos hsame.1, if_pos hsame.2]
    have hmarks : link.connectMarks host port = [] := by
      rw [connectMarks, if_pos hsame.1, if_pos hsame.2]
    have hnoted : books.note (link.marksOf (.connect host port)) = books := by
      rw [marksOf, hmarks, Books.note, List.append_nil]
    rw [hconnect, hnoted]
    exact hsound
  · have hclosed := hsound.close
    refine ⟨(kept_signals books.before).connect hapart hsound.signals host port, fun receipt hmem => ?_,
      List.forall_mem_nil _, fun receipt hmem => ?_, fun id hlater => ?_⟩
    · exact (kept_followed receipt.id receipt.operation receipt.term_ne_running).connect hapart
        (hclosed.past receipt hmem) host port
    · rw [connect_dispatched]
      exact hclosed.bounded receipt hmem
    · rw [connect_dispatched] at hlater
      exact (kept_foreign id []).connect hapart (hsound.fresh id hlater) host port

theorem Sound.env (hsound : Sound link books) {env : Environment}
    (hsignals : env.signals = link.env.signals) : Sound { link with env } books :=
  ⟨hsignals.trans hsound.signals, hsound.past, hsound.present, hsound.bounded, hsound.fresh⟩

theorem Sound.enter (hsound : Sound link books) {receipt : Receipt}
    (hleads : Leads receipt.id receipt.operation receipt.term (ofCall receipt.id books.record) link.loops)
    (hle : receipt.id ≤ link.dispatched) : Sound link (books.enter [receipt]) := by
  refine ⟨hsound.signals, hsound.past, fun other hmem => ?_, fun other hmem => ?_, hsound.fresh⟩
  · rcases List.mem_append.mp hmem with hmem | hmem
    · exact hsound.present other hmem
    · rw [List.mem_singleton.mp hmem]
      exact hleads
  · rw [Books.receipts, Books.enter, ← List.append_assoc] at hmem
    rcases List.mem_append.mp hmem with hmem | hmem
    · exact hsound.bounded other hmem
    · rw [List.mem_singleton.mp hmem]
      exact hle

theorem handing_live (hlive : link.live = some loop) (operation : Operation) :
    (link.handing operation).live = some (loop.post (.start (link.dispatched + 1) operation)) := by
  rw [handing, Link.post, hlive]
  rfl

theorem awaited_dispatched (link : Link) (timeout : Int) (operation : Operation) :
    (link.awaited timeout operation).dispatched = link.dispatched + 1 := by
  obtain ⟨env, live, detached, hawaited⟩ := link.awaited_eq timeout operation
  rw [hawaited]

theorem Sound.ne_next (hsound : Sound link books) {receipt : Receipt} (hmem : receipt ∈ books.receipts) :
    receipt.id ≠ link.dispatched + 1 := by
  intro hid
  have hle := hsound.bounded receipt hmem
  rw [hid] at hle
  exact absurd hle (Nat.not_succ_le_self _)

theorem receipts_of_connected (hlive : link.live = some loop) (hconnected : loop.connected = true)
    (timeout : Int) (operation : Operation) :
    link.receipts timeout operation = [⟨link.dispatched + 1, operation,
      ((link.awaited timeout operation).outcome? (link.dispatched + 1)).isNone⟩] := by
  rw [receipts, hlive]
  exact if_pos hconnected

theorem receipts_of_apart (hlive : link.live = none) (timeout : Int) (operation : Operation) :
    link.receipts timeout operation = [] := by
  rw [receipts, hlive]
  rfl

/-- While a call is waited for, it is on the loop of the connection. -/
theorem Sound.awaited (hsound : Sound link books) (hlive : link.live = some loop)
    {service : Service} (hjoined : loop.Joined service) (timeout : Int) (operation : Operation) :
    Sound (link.awaited timeout operation) (books.note (link.callMarks timeout operation)) ∧
      ∃ now, (link.awaited timeout operation).live = some now ∧
        now.Course (link.dispatched + 1) operation .running
          (ofCall (link.dispatched + 1) (books.note (link.callMarks timeout operation)).record) ∧
        ∀ other ∈ (link.awaited timeout operation).detached, other.Foreign (link.dispatched + 1) := by
  have hconnected : (link.live.map (·.connected)).getD false = true := by
    rw [hlive]
    exact hjoined.connected
  have hmarks : link.callMarks timeout operation = (link.handing operation).waitMarks timeout
      fun now => (now.outcome? (link.dispatched + 1)).isSome := by
    rw [callMarks, if_pos hconnected]
  have hhanded := handing_live hlive operation
  have hcounted : Sound { link with dispatched := link.dispatched + 1 } books :=
    ⟨hsound.signals, hsound.past, hsound.present,
      fun receipt hmem => Nat.le_succ_of_le (hsound.bounded receipt hmem),
      fun id hlater => hsound.fresh id (Nat.lt_of_succ_lt hlater)⟩
  have hposted : Sound (link.handing operation) books :=
    hcounted.post hlive (fun receipt hmem hconcerns => hsound.ne_next hmem hconcerns)
      (fun id hlater hconcerns => absurd hlater (Nat.not_lt.mpr (Nat.le_of_eq hconcerns)))
  obtain ⟨hnone, hforeign⟩ := hsound.fresh (link.dispatched + 1) (Nat.lt_succ_self _)
  rw [loops_of_live hlive, List.forall_mem_cons] at hforeign
  have hleads : Leads (link.dispatched + 1) operation .running
      (ofCall (link.dispatched + 1) books.record) (link.handing operation).loops := by
    refine ⟨_, link.detached, loops_of_live hhanded, ?_, hforeign.2⟩
    rw [hnone]
    exact hforeign.1.start (fun hmem => hjoined.queue _ hmem) operation
  obtain ⟨now, hnow⟩ := waitFor_live hhanded timeout fun now => (now.outcome? (link.dispatched + 1)).isSome
  obtain ⟨first, rest, hloops, hcourse, hothers⟩ :=
    (lasts_leads _ operation .running).waitFor hleads timeout
      fun now => (now.outcome? (link.dispatched + 1)).isSome
  rw [loops_of_live hnow] at hloops
  obtain ⟨rfl, rfl⟩ := List.cons.inj hloops
  rw [hmarks]
  exact ⟨hposted.waitFor _ _, now, hnow, hcourse, hothers⟩

/-- A call leaves its receipt. -/
theorem Sound.call (hsound : Sound link books) (hnumbered : link.Numbered) (timeout : Int)
    (operation : Operation) :
    Sound (link.call timeout operation).2
      ((books.note (link.callMarks timeout operation)).enter (link.receipts timeout operation)) := by
  cases hlive : link.live with
  | none =>
    have hmarks : link.callMarks timeout operation = [] := by rw [callMarks, hlive]; rfl
    have hsame : (books.note []).enter [] = books := by
      rw [Books.note, Books.enter, List.append_nil, List.append_nil]
    rw [call_of_apart hlive, hmarks, receipts_of_apart hlive, hsame]
    exact hsound
  | some loop =>
    obtain ⟨service, hjoined⟩ := (hnumbered loop hlive).joined
    obtain ⟨hawaited, now, hnow, hcourse, hforeign⟩ := hsound.awaited hlive hjoined timeout operation
    have hdispatched := link.awaited_dispatched timeout operation
    have hreceipts := receipts_of_connected hlive hjoined.connected timeout operation
    rcases call_of_connected hlive hjoined.connected timeout operation with
      ⟨outcome, houtcome, hcall⟩ | ⟨houtcome, entry, hcall⟩
    · have hdistinct := ((hnumbered.handing operation).waitFor timeout _ now hnow).distinct
      rw [hcall, hreceipts, houtcome]
      rw [outcome?_of_live hnow] at houtcome
      exact hawaited.enter ⟨now, _, loops_of_live hnow, hcourse.answer hdistinct houtcome, hforeign⟩
        (Nat.le_of_eq hdispatched.symm)
    · have hlogged : Sound ((link.awaited timeout operation).log entry)
          (books.note (link.callMarks timeout operation)) := hawaited.env rfl
      have hposted := @Sound.post _ _ now hlogged hnow (.cancel (link.dispatched + 1))
        (fun receipt hmem hconcerns => hsound.ne_next hmem hconcerns)
        (fun id hlater hconcerns => absurd (hdispatched ▸ hlater : link.dispatched + 1 < id)
          (Nat.not_lt.mpr (Nat.le_of_eq hconcerns)))
      have hgivenUp : (((link.awaited timeout operation).log entry).post
          (.cancel (link.dispatched + 1))).live = some (now.post (.cancel (link.dispatched + 1))) := by
        rw [Link.post, Link.log, hnow]
        rfl
      rw [hcall, hreceipts, houtcome]
      exact hposted.enter ⟨_, _, loops_of_live hgivenUp, hcourse.giveUp, hforeign⟩
        (Nat.le_of_eq hdispatched.symm)

theorem Sound.perform (hsound : Sound link books) {account : Account} (htracked : Tracked link account)
    (command : Command) : Sound (link.perform command) (books.next link command) := by
  cases command with
  | connect host port => exact hsound.connect htracked.apart host port
  | disconnect => exact hsound.disconnect
  | call timeout operation => exact hsound.call htracked.numbered timeout operation
  | invoke method params timeout =>
    rw [Link.perform, Books.next, marksOf, Link.invoke, invokeMarks]
    cases params.dump .compact with
    | ok body => exact hsound.call htracked.numbered timeout _
    | error fault =>
      rw [Books.note, List.append_nil]
      exact hsound
  | wait milliseconds ready => exact hsound.waitFor milliseconds ready
  | lay scripts resolutions starts =>
    rw [Books.next, marksOf, Books.note, List.append_nil]
    exact hsound.env rfl

theorem Booked.sound (hbooked : Booked link books) : Sound link books := by
  induction hbooked with
  | opened env limits =>
    refine ⟨rfl, List.forall_mem_nil _, List.forall_mem_nil _, List.forall_mem_nil _, fun id _ => ?_⟩
    exact ⟨rfl, List.forall_mem_nil _⟩
  | step hbooked command ih =>
    obtain ⟨account, htracked⟩ := hbooked.tracked
    exact ih.perform htracked command

end Link

end Offload
