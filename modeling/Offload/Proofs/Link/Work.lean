import Offload.Link.Basic

namespace Offload

section Total

variable {α : Type} (measure : α → Nat)

theorem total_append (left right : List α) :
    total measure (left ++ right) = total measure left + total measure right := by
  induction left with
  | nil => simp [total]
  | cons item rest ih => simp [total, ih, Nat.add_assoc]

theorem total_filter_le (keep : α → Bool) (hpos : ∀ item, 1 ≤ measure item) (items : List α) :
    total measure (items.filter keep) + (items.filter fun item => !keep item).length
      ≤ total measure items := by
  induction items with
  | nil => simp [total]
  | cons item rest ih =>
    have hitem := hpos item
    cases hkeep : keep item with
    | true =>
      simp only [List.filter_cons, hkeep, Bool.not_true, total, if_true, Bool.false_eq_true, if_false]
      omega
    | false =>
      simp only [List.filter_cons, hkeep, Bool.not_false, total, if_true, Bool.false_eq_true, if_false,
        List.length_cons]
      omega

end Total

namespace Loop

variable (loop : Loop)

@[simp] theorem post_work (task : Task) : (loop.post task).work = loop.work + taskWork task := by
  simp only [post, work, total_append, total]
  omega

@[simp] theorem hangUp_work : loop.hangUp.work = loop.work := rfl

@[simp] theorem settle_work (id : Nat) (outcome : Except Failure Json) :
    (loop.settle id outcome).work = loop.work := rfl

@[simp] theorem settleAttempt_work (result : Except Failure Service) :
    (loop.settleAttempt result).work = loop.work := by
  cases result <;> rfl

@[simp] theorem deliver_work (owner : Owner) (delivery : Delivery) :
    (loop.deliver owner delivery).work = loop.work := by
  cases owner with
  | attempt => exact settleAttempt_work loop _
  | call id => rfl

@[simp] theorem await_work (owner : Owner) (due : Option Nat) (event : Event) :
    (loop.await owner due event).work = loop.work + eventWork event := by
  simp only [await, work, total_append, total]
  omega

theorem eventWork_pos (event : Event) : 1 ≤ eventWork event := by
  cases event with
  | stage stage exchange => cases stage <;> simp [eventWork]
  | resolved failure => simp [eventWork]
  | timer completion => simp [eventWork]

private theorem total_aborted (owner : Owner) (ended : List Wait) :
    total taskWork (ended.map fun _ => Task.aborted owner) = ended.length := by
  induction ended with
  | nil => rfl
  | cons wait rest ih =>
    simp only [List.map_cons, total, ih, taskWork, List.length_cons]
    omega

theorem abort_work_le (owner : Owner) : (loop.abort owner).work ≤ loop.work := by
  have hwaits := total_filter_le (fun wait : Wait => eventWork wait.event)
    (fun wait => decide (wait.owner ≠ owner)) (fun wait => eventWork_pos wait.event) loop.waits
  have hended : (loop.waits.filter fun wait => !decide (wait.owner ≠ owner))
      = loop.waits.filter fun wait => decide (wait.owner = owner) :=
    List.filter_congr fun wait _ => by simp
  rw [hended] at hwaits
  simp only [abort, work, total_append, total_aborted]
  omega

theorem enter_work (env : Environment) (owner : Owner) (stage : Stage) (exchange : Exchange) :
    (enter env loop owner stage exchange).2.work
      = loop.work + eventWork (.stage stage exchange) := by
  simp [enter]

theorem beginExchange_work (env : Environment) (owner : Owner) (target body : Bytes) :
    (beginExchange env loop owner target body).2.work = loop.work + 6 := by
  simp only [beginExchange, enter_work, eventWork]

theorem beginConnect_work (env : Environment) :
    (beginConnect env loop).2.work = loop.work + 10 := by
  simp only [beginConnect, await_work, eventWork]
  rfl

theorem react_work_le (env : Environment) (owner : Owner) (reactions : List Reaction) :
    (react env loop owner reactions).2.1.work ≤ loop.work := by
  induction reactions generalizing env loop with
  | nil => exact Nat.le_refl _
  | cons reaction rest ih =>
    cases reaction with
    | signal => exact ih loop _
    | abort => exact Nat.le_trans (ih (loop.abort owner) env) (loop.abort_work_le owner)
    | complete completion =>
      cases owner with
      | attempt => exact ih loop env
      | call id => exact ih (loop.settle id _) env
    | raise failure => exact Nat.le_refl _

theorem onCancel_work_le (env : Environment) (id : Nat) (reactions : List Reaction) :
    (onCancel env loop id reactions).2.1.work ≤ loop.work := by
  unfold onCancel
  split
  · exact Nat.le_refl _
  · exact react_work_le (loop.setHandle _) env _ _

theorem cancelCall_work_le (env : Environment) (id : Nat) :
    (cancelCall env loop id).2.1.work ≤ loop.work := by
  unfold cancelCall
  split
  · exact Nat.le_refl _
  · exact react_work_le (loop.setHandle _) env _ _

theorem cancelAttempt_work_le (env : Environment) :
    (cancelAttempt env loop).2.1.work ≤ loop.work := by
  unfold cancelAttempt
  split
  · exact Nat.le_refl _
  · next handle _ => exact react_work_le { loop with attempt := some handle.cancel.1 } env _ _

theorem cancelAll_work_le (env : Environment) (calls : List Call) :
    (cancelAll env loop calls).2.1.work ≤ loop.work := by
  induction calls generalizing env loop with
  | nil => exact cancelAttempt_work_le loop env
  | cons call rest ih =>
    have hcall := cancelCall_work_le loop env call.handle.id
    simp only [cancelAll]
    split
    · next env' loop' hcancel =>
      rw [hcancel] at hcall
      exact Nat.le_trans (ih loop' env') hcall
    · exact hcall

@[simp] theorem survive_work (outcome : Environment × Loop × Option Failure) :
    (survive outcome).2.work = outcome.2.1.work := by
  obtain ⟨env, loop, failure⟩ := outcome
  cases failure <;> rfl

theorem perform_work_le (env : Environment) (id : Nat) (operation : Operation) :
    (perform env loop id operation).2.work ≤ loop.work + operation.work := by
  induction operation generalizing env loop with
  | nil => exact Nat.le_add_right _ _
  | cons step rest ih =>
    have hsplit : Operation.work (step :: rest) = step.work + Operation.work rest := rfl
    cases step with
    | complete completion =>
      have hrest := ih (loop.settle id (loop.outcomeOf id completion)) env
      simp only [perform, settle_work] at hrest ⊢
      omega
    | raise failure =>
      simp only [perform, settle_work]
      omega
    | sleep milliseconds =>
      simp only [perform, work, hsplit, Step.work, Option.map_some, Option.getD_some]
      omega
    | onCancel reactions =>
      have hregistered := onCancel_work_le loop env id reactions
      simp only [perform]
      split
      · next env' loop' honcancel =>
        rw [honcancel] at hregistered
        have hrest := ih loop' env'
        simp only at hregistered
        omega
      · next env' loop' failure honcancel =>
        rw [honcancel] at hregistered
        simp only [settle_work] at hregistered ⊢
        omega
    | later milliseconds completion =>
      have hrest := ih (loop.await (.call id) (some (env.clock + milliseconds)) (.timer completion)) env
      simp only [perform, await_work, eventWork] at hrest ⊢
      simp only [hsplit, Step.work]
      omega
    | exchange target body =>
      have hbegun := beginExchange_work loop env (.call id) target body
      simp only [perform]
      have hrest := ih (beginExchange env loop (.call id) target body).2
        (beginExchange env loop (.call id) target body).1
      rw [hsplit, Step.work]
      omega

theorem runTask_work_lt (env : Environment) (task : Task) :
    (runTask env loop task).2.work < loop.work + taskWork task := by
  cases task with
  | connect =>
    have hbegun := beginConnect_work loop env
    simp only [runTask, taskWork]
    omega
  | start id operation =>
    have hperformed := perform_work_le { loop with calls := loop.calls ++ [{ handle := { id } }] } env
      id operation
    have hsame : ({ loop with calls := loop.calls ++ [{ handle := { id } }] } : Loop).work
        = loop.work := rfl
    simp only [runTask, taskWork]
    omega
  | cancel id =>
    have hcancelled := cancelCall_work_le loop env id
    simp only [runTask, survive_work, taskWork]
    omega
  | aborted owner =>
    simp only [runTask, deliver_work, taskWork]
    omega
  | shutdown =>
    have hcancelled := cancelAll_work_le loop.hangUp env loop.pending
    rw [hangUp_work] at hcancelled
    simp only [runTask]
    split
    · next env' loop' hall =>
      rw [hall] at hcancelled
      simp only [post_work, taskWork] at hcancelled ⊢
      omega
    · simp only [survive_work, taskWork]
      omega
  | stop =>
    have hsame : ({ loop with alive := false } : Loop).work = loop.work := rfl
    simp only [runTask, taskWork]
    omega

theorem fire_work_lt (env : Environment) (owner : Owner) (event : Event) :
    (fire env loop owner event).2.work < loop.work + eventWork event := by
  cases event with
  | resolved finding =>
    cases finding with
    | ok script =>
      simp only [fire, enter_work, eventWork]
      omega
    | error reason =>
      simp only [fire, settleAttempt_work, eventWork]
      omega
  | timer completion =>
    cases owner with
    | attempt =>
      simp only [fire, eventWork]
      omega
    | call id =>
      simp only [fire, settle_work, eventWork]
      omega
  | stage stage exchange =>
    have hpos := eventWork_pos (.stage stage exchange)
    simp only [fire]
    split
    · simp only [deliver_work]
      omega
    · split
      · simp only [enter_work, eventWork]
        omega
      · simp only [enter_work, eventWork]
        omega
      · simp only [deliver_work, eventWork]
        omega
      · simp only [deliver_work, eventWork]
        omega
      · simp only [eventWork]
        omega

theorem takeAt_total {due : Nat} {waits others : List Wait} {wait : Wait}
    (htake : takeAt due waits = some (wait, others)) :
    total (fun wait => eventWork wait.event) waits
      = eventWork wait.event + total (fun wait => eventWork wait.event) others := by
  induction waits generalizing others with
  | nil => cases htake
  | cons first rest ih =>
    simp only [takeAt] at htake
    split at htake
    · cases htake
      rfl
    · obtain ⟨⟨found, left⟩, hfound, heq⟩ := Option.map_eq_some_iff.mp htake
      simp only [Prod.mk.injEq] at heq
      obtain ⟨rfl, rfl⟩ := heq
      have hrest := ih hfound
      simp only [total]
      omega

theorem takeDue_total {clock : Nat} {waits others : List Wait} {wait : Wait}
    (htake : takeDue clock waits = some (wait, others)) :
    total (fun wait => eventWork wait.event) waits
      = eventWork wait.event + total (fun wait => eventWork wait.event) others := by
  unfold takeDue at htake
  split at htake
  · split at htake
    · exact takeAt_total htake
    · cases htake
  · cases htake

/-- A turn uses up work. -/
theorem turn_work_lt {loop after : Loop} {env env' : Environment}
    (hturn : loop.turn env = some (env', after)) : after.work < loop.work := by
  unfold turn at hturn
  split at hturn
  · split at hturn
    · next sleep hasleep =>
      split at hturn
      · have hperformed := perform_work_le { loop with asleep := none } env sleep.id sleep.rest
        have hafter : (perform env { loop with asleep := none } sleep.id sleep.rest).2 = after :=
          congrArg Prod.snd (Option.some.inj hturn)
        rw [hafter] at hperformed
        simp only [work, hasleep, Option.map_some, Option.map_none, Option.getD_some,
          Option.getD_none] at hperformed ⊢
        omega
      · cases hturn
    · next hasleep =>
      split at hturn
      · next task rest hqueue =>
        have hran := runTask_work_lt { loop with queue := rest } env task
        have hafter : (runTask env { loop with queue := rest } task).2 = after :=
          congrArg Prod.snd (Option.some.inj hturn)
        rw [hafter] at hran
        simp only [work, hqueue, total] at hran ⊢
        omega
      · split at hturn
        · next wait others htake =>
          have hfired := fire_work_lt { loop with waits := others } env wait.owner wait.event
          have hafter : (fire env { loop with waits := others } wait.owner wait.event).2 = after :=
            congrArg Prod.snd (Option.some.inj hturn)
          have hwaits := takeDue_total htake
          rw [hafter] at hfired
          simp only [work] at hfired ⊢
          omega
        · cases hturn
  · cases hturn

end Loop

end Offload
