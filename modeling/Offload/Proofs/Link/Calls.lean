import Offload.Link.Basic

namespace Offload.Loop

variable {loop : Loop} {env : Environment} {id other : Nat}

theorem call?_id {call : Call} (hcall : loop.call? id = some call) : call.handle.id = id := by
  simpa using List.find?_some hcall

private theorem find?_map_call (change : Call → Call)
    (hsame : ∀ call, (change call).handle.id = call.handle.id) (calls : List Call) :
    (calls.map change).find? (fun call => decide (call.handle.id = other))
      = (calls.find? fun call => decide (call.handle.id = other)).map change := by
  rw [List.find?_map]
  congr 2
  funext call
  simp [hsame]

theorem call?_setHandle (loop : Loop) (handle : Handle (List Reaction)) (other : Nat) :
    (loop.setHandle handle).call? other =
      (loop.call? other).map fun call => if other = handle.id then { call with handle } else call := by
  simp only [setHandle, call?]
  rw [find?_map_call]
  · cases hfound : loop.calls.find? (fun call => decide (call.handle.id = other)) with
    | none => rfl
    | some call =>
      have hid : call.handle.id = other := @call?_id loop _ _ hfound
      simp only [Option.map_some, hid]
  · intro call
    split
    · next heq => exact heq.symm
    · rfl

theorem call?_settle (loop : Loop) (id : Nat) (outcome : Except Failure Json) (other : Nat) :
    (loop.settle id outcome).call? other =
      (loop.call? other).map fun call =>
        if other = id ∧ call.outcome.isNone then { call with outcome := some outcome } else call := by
  simp only [settle, call?]
  rw [find?_map_call]
  · cases hfound : loop.calls.find? (fun call => decide (call.handle.id = other)) with
    | none => rfl
    | some call =>
      have hid : call.handle.id = other := @call?_id loop _ _ hfound
      simp only [Option.map_some, hid]
  · intro call
    split <;> rfl

theorem call?_of_calls_append {extra : Call} {calls : List Call} (hcalls : loop.calls = calls ++ [extra])
    (other : Nat) :
    loop.call? other = (calls.find? fun call => decide (call.handle.id = other)).or
      (if extra.handle.id = other then some extra else none) := by
  simp only [call?, hcalls, List.find?_append, List.find?_singleton, decide_eq_true_eq]

/-- Cancelling any call of the loop does no more than abort. -/
def Mild (loop : Loop) : Prop :=
  ∀ id call, loop.call? id = some call →
    call.handle.action = none ∨ call.handle.action = some [.abort]

theorem Mild.of_calls {after : Loop} (hmild : loop.Mild) (hcalls : after.calls = loop.calls) :
    after.Mild := by
  intro id call hcall
  apply hmild id call
  simpa only [call?, hcalls] using hcall

theorem Mild.settle (hmild : loop.Mild) (id : Nat) (outcome : Except Failure Json) :
    (loop.settle id outcome).Mild := by
  intro other call hcall
  rw [call?_settle] at hcall
  obtain ⟨before, hbefore, rfl⟩ := Option.map_eq_some_iff.mp hcall
  split
  · exact hmild other before hbefore
  · exact hmild other before hbefore

theorem Mild.setHandle (hmild : loop.Mild) {handle : Handle (List Reaction)}
    (haction : handle.action = none ∨ handle.action = some [.abort]) :
    (loop.setHandle handle).Mild := by
  intro other call hcall
  rw [call?_setHandle] at hcall
  obtain ⟨before, hbefore, rfl⟩ := Option.map_eq_some_iff.mp hcall
  split
  · exact haction
  · exact hmild other before hbefore

theorem cancel_action {handle : Handle (List Reaction)}
    (haction : handle.action = none ∨ handle.action = some [.abort]) :
    handle.cancel.1.action = none ∨ handle.cancel.1.action = some [.abort] := by
  unfold Handle.cancel
  split
  · exact haction
  · exact .inl rfl

theorem cancel_due {handle : Handle (List Reaction)}
    (haction : handle.action = none ∨ handle.action = some [.abort]) :
    handle.cancel.2 = none ∨ handle.cancel.2 = some [.abort] := by
  unfold Handle.cancel
  split
  · exact .inl rfl
  · exact haction

theorem cancel_id (handle : Handle (List Reaction)) : handle.cancel.1.id = handle.id := by
  unfold Handle.cancel
  split <;> rfl

/-- The loop after the cancellation of a call. -/
def cancelled (loop : Loop) (id : Nat) : Loop :=
  match loop.call? id with
  | none => loop
  | some call =>
    if call.handle.cancel.2.isSome then (loop.setHandle call.handle.cancel.1).abort (.call id)
    else loop.setHandle call.handle.cancel.1

theorem cancelCall_of_mild (hmild : loop.Mild) (env : Environment) (id : Nat) :
    cancelCall env loop id = (env, loop.cancelled id, none) := by
  unfold cancelCall cancelled
  cases hcall : loop.call? id with
  | none => rfl
  | some call =>
    rcases cancel_due (hmild id call hcall) with hdue | hdue
    · simp [hdue, react]
    · simp [hdue, react]

theorem Mild.cancelled (hmild : loop.Mild) (id : Nat) : (loop.cancelled id).Mild := by
  unfold Loop.cancelled
  split
  · exact hmild
  · next call hcall =>
    have htidied := hmild.setHandle (cancel_action (hmild id call hcall))
    split
    · exact htidied.of_calls rfl
    · exact htidied

theorem cancelled_queue (loop : Loop) (id : Nat) :
    ∃ ended : List Wait, (loop.cancelled id).queue
      = loop.queue ++ ended.map fun _ => Task.aborted (.call id) := by
  unfold cancelled
  split
  · exact ⟨[], by simp⟩
  · split
    · exact ⟨_, rfl⟩
    · exact ⟨[], by simp [setHandle]⟩

theorem cancelled_frame (loop : Loop) (id : Nat) :
    (loop.cancelled id).alive = loop.alive ∧ (loop.cancelled id).asleep = loop.asleep ∧
      (loop.cancelled id).connected = loop.connected ∧
      (loop.cancelled id).attempt = loop.attempt ∧ (loop.cancelled id).host = loop.host := by
  unfold cancelled
  split
  · exact ⟨rfl, rfl, rfl, rfl, rfl⟩
  · split <;> exact ⟨rfl, rfl, rfl, rfl, rfl⟩

theorem cancelled_call?_of_ne (loop : Loop) (hne : other ≠ id) :
    (loop.cancelled id).call? other = loop.call? other := by
  unfold cancelled
  split
  · rfl
  · next call hcall =>
    have hkept : (loop.setHandle call.handle.cancel.1).call? other = loop.call? other := by
      rw [call?_setHandle, cancel_id, call?_id hcall]
      simp [hne]
    split <;> exact hkept

end Offload.Loop
