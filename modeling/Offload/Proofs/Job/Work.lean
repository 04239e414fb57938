import Mathlib.Data.List.Forall2
import Offload.Proofs.Job.Definition
import Offload.Session.Record

namespace Offload

namespace Work

variable {α β : Type}

theorem bind_ok {first : Work α} {value : α} (next : α → Work β)
    (houtcome : first.outcome = .ok value) :
    first >>= next =
      ⟨first.elapsed + (next value).elapsed, (next value).outcome,
        first.invocations ++ (next value).invocations⟩ := by
  change andThen first next = _
  simp only [andThen, houtcome]

theorem bind_error {first : Work α} {failure : Failure} (next : α → Work β)
    (houtcome : first.outcome = .error failure) :
    first >>= next = ⟨first.elapsed, .error failure, first.invocations⟩ := by
  change andThen first next = _
  simp only [andThen, houtcome]

theorem bind_outcome (first : Work α) (next : α → Work β) :
    (first >>= next).outcome = first.outcome >>= fun value => (next value).outcome := by
  cases houtcome : first.outcome with
  | error failure =>
    rw [bind_error next houtcome]
    rfl
  | ok value =>
    rw [bind_ok next houtcome]
    rfl

private theorem mapOnto_eq (f : α → Work β) (items : List α) (results : List β) (elapsed : Nat)
    (calls : List Invocation) :
    mapOnto f results elapsed calls items =
      ⟨elapsed + (forEach f items).elapsed, (forEach f items).outcome.map (results.reverse ++ ·),
        calls.reverse ++ (forEach f items).invocations⟩ := by
  induction items generalizing results elapsed calls with
  | nil => simp [forEach, mapOnto, Except.map]
  | cons item items ih =>
    rw [forEach, mapOnto, mapOnto]
    cases hstep : (f item).outcome with
    | error failure => simp [Except.map]
    | ok result =>
      simp only
      rw [ih (result :: results), ih [result]]
      cases (forEach f items).outcome <;> simp [Except.map, Nat.add_assoc]

theorem forEach_cons (f : α → Work β) (item : α) (items : List α) :
    forEach f (item :: items) =
      match (f item).outcome with
      | .ok result =>
        ⟨(f item).elapsed + (forEach f items).elapsed,
          (forEach f items).outcome.map (result :: ·),
          (f item).invocations ++ (forEach f items).invocations⟩
      | .error failure => ⟨(f item).elapsed, .error failure, (f item).invocations⟩ := by
  rw [forEach, mapOnto]
  cases hstep : (f item).outcome with
  | error failure => simp
  | ok result => simp [mapOnto_eq]

/-- The loop succeeds just if the function does on every item, and gives the results in order. -/
theorem forEach_eq_ok_iff {f : α → Work β} {items : List α} {results : List β} :
    (forEach f items).outcome = .ok results ↔
      List.Forall₂ (fun item result => (f item).outcome = .ok result) items results := by
  induction items generalizing results with
  | nil =>
    have hnone : (forEach f []).outcome = .ok [] := rfl
    rw [hnone, Except.ok.injEq, List.forall₂_nil_left_iff]
    exact eq_comm
  | cons item items ih =>
    rw [forEach_cons, List.forall₂_cons_left_iff]
    cases hstep : (f item).outcome with
    | error failure => simp
    | ok result =>
      simp only [← ih]
      cases (forEach f items).outcome with
      | error failure => simp [Except.map]
      | ok rest =>
        simp only [Except.map, Except.ok.injEq]
        constructor
        · rintro rfl
          exact ⟨result, rest, rfl, rfl, rfl⟩
        · rintro ⟨_, _, rfl, rfl, rfl⟩
          rfl

theorem forEach_outcome (f : α → Work β) (items : List α) :
    (forEach f items).outcome = items.mapM fun item => (f item).outcome := by
  induction items with
  | nil => rfl
  | cons item items ih =>
    rw [forEach_cons, List.mapM_cons, ← ih]
    cases (f item).outcome with
    | error failure => rfl
    | ok result => cases (forEach f items).outcome <;> rfl

theorem forEach_ok {f : α → Work β} {g : α → β} (hf : ∀ item, (f item).outcome = .ok (g item))
    (items : List α) : (forEach f items).outcome = .ok (items.map g) := by
  rw [forEach_eq_ok_iff, List.forall₂_map_right_iff, List.forall₂_same]
  exact fun item _ => hf item

end Work

namespace Definition

variable (definition : Definition)

/-- The functions of the job, with the defaults in place of those that are missing. -/
def splitter : SplitFunction := definition.splitFunction.getD (splitBySize defaultChunkSize)

def executor : ExecuteFunction := definition.executeFunction.getD executeIdentity

def merger : MergeFunction := definition.mergeFunction.getD mergeConcat

/-- A function is called on the chunks, once each and in order, up to the first call that fails. -/
inductive Executes (f : ExecuteFunction) :
    List Bytes → List Invocation → Except Failure (List Bytes) → Prop
  | done : Executes f [] [] (.ok [])
  | failed {chunk : Bytes} (rest : List Bytes) {failure : Failure}
    (hchunk : (f chunk).outcome = .error failure) :
    Executes f (chunk :: rest) [.execute chunk] (.error failure)
  | next {chunk result : Bytes} {rest : List Bytes} {calls : List Invocation}
    {outcome : Except Failure (List Bytes)} (hchunk : (f chunk).outcome = .ok result)
    (hrest : Executes f rest calls outcome) :
    Executes f (chunk :: rest) (.execute chunk :: calls) (outcome.map (result :: ·))

/-- The calls of the job's functions in a run, and what comes of them: the whole input is split, the
chunks are executed, and the results are merged if no call has failed. -/
inductive Runs (definition : Definition) (input : Bytes) :
    List Invocation → Except Failure Bytes → Prop
  | unsplit {failure : Failure} (hsplit : (definition.splitter input).outcome = .error failure) :
    Runs definition input [.split input] (.error failure)
  | stopped {chunks : List Bytes} {calls : List Invocation} {failure : Failure}
    (hsplit : (definition.splitter input).outcome = .ok chunks)
    (hchunks : Executes definition.executor chunks calls (.error failure)) :
    Runs definition input (.split input :: calls) (.error failure)
  | merged {chunks results : List Bytes} {calls : List Invocation}
    (hsplit : (definition.splitter input).outcome = .ok chunks)
    (hchunks : Executes definition.executor chunks calls (.ok results)) :
    Runs definition input (.split input :: (calls ++ [.merge results]))
      (definition.merger results).outcome

theorem executes_iff {chunks : List Bytes} {calls : List Invocation}
    {outcome : Except Failure (List Bytes)} :
    Executes definition.executor chunks calls outcome ↔
      calls = (Work.forEach definition.execute chunks).invocations ∧
        outcome = (Work.forEach definition.execute chunks).outcome := by
  induction chunks generalizing calls outcome with
  | nil =>
    constructor
    · rintro ⟨⟩
      exact ⟨rfl, rfl⟩
    · rintro ⟨rfl, rfl⟩
      exact .done
  | cons chunk rest ih =>
    have hcall : (definition.execute chunk).invocations = [.execute chunk] := rfl
    rw [Work.forEach_cons, hcall]
    cases hchunk : (definition.execute chunk).outcome with
    | error failure =>
      constructor
      · intro hexecutes
        cases hexecutes with
        | failed _ hother => exact ⟨rfl, congrArg Except.error (Except.error.inj (hother.symm.trans hchunk))⟩
        | next hother _ => cases hother.symm.trans hchunk
      · rintro ⟨rfl, rfl⟩
        exact .failed rest hchunk
    | ok result =>
      constructor
      · intro hexecutes
        cases hexecutes with
        | failed _ hother => cases hother.symm.trans hchunk
        | next hother hrest =>
          obtain ⟨rfl, rfl⟩ := ih.mp hrest
          cases hother.symm.trans hchunk
          exact ⟨rfl, rfl⟩
      · rintro ⟨rfl, rfl⟩
        exact .next hchunk (ih.mpr ⟨rfl, rfl⟩)

/-- A run makes just the calls of the job's functions, and ends as they do. -/
theorem runs_iff {input : Bytes} {calls : List Invocation} {outcome : Except Failure Bytes} :
    definition.Runs input calls outcome ↔
      calls = (definition.run input).invocations ∧ outcome = (definition.run input).outcome := by
  have hcall : (definition.split input).invocations = [.split input] := rfl
  unfold run
  cases hsplit : (definition.split input).outcome with
  | error failure =>
    rw [Work.bind_error _ hsplit, hcall]
    constructor
    · intro hruns
      cases hruns with
      | unsplit hother => exact ⟨rfl, congrArg Except.error (Except.error.inj (hother.symm.trans hsplit))⟩
      | stopped hother _ | merged hother _ => cases hother.symm.trans hsplit
    · rintro ⟨rfl, rfl⟩
      exact .unsplit hsplit
  | ok chunks =>
    rw [Work.bind_ok _ hsplit, hcall]
    cases hresults : (Work.forEach definition.execute chunks).outcome with
    | error failure =>
      rw [Work.bind_error _ hresults]
      constructor
      · intro hruns
        cases hruns with
        | unsplit hother => cases hother.symm.trans hsplit
        | stopped hother hchunks =>
          cases hother.symm.trans hsplit
          obtain ⟨rfl, houtcome⟩ := definition.executes_iff.mp hchunks
          exact ⟨rfl, congrArg Except.error (Except.error.inj (houtcome.trans hresults))⟩
        | merged hother hchunks =>
          cases hother.symm.trans hsplit
          cases (definition.executes_iff.mp hchunks).2.trans hresults
      · rintro ⟨rfl, rfl⟩
        exact .stopped hsplit (definition.executes_iff.mpr ⟨rfl, hresults.symm⟩)
    | ok results =>
      rw [Work.bind_ok _ hresults]
      constructor
      · intro hruns
        cases hruns with
        | unsplit hother => cases hother.symm.trans hsplit
        | stopped hother hchunks =>
          cases hother.symm.trans hsplit
          cases (definition.executes_iff.mp hchunks).2.trans hresults
        | merged hother hchunks =>
          cases hother.symm.trans hsplit
          obtain ⟨rfl, houtcome⟩ := definition.executes_iff.mp hchunks
          cases houtcome.trans hresults
          exact ⟨rfl, rfl⟩
      · rintro ⟨rfl, rfl⟩
        exact .merged hsplit (definition.executes_iff.mpr ⟨rfl, hresults.symm⟩)

/-- All functions of the job return on the input: the split function the chunks, the execute function a
result for each of them, and the merge function what the results are merged into. -/
structure Returns (definition : Definition) (input : Bytes) (chunks : List Bytes) (merged : Bytes) :
    Prop where
  split : (definition.split input).outcome = .ok chunks
  parts : ∃ results : List Bytes,
    List.Forall₂ (fun chunk result => (definition.execute chunk).outcome = .ok result) chunks results ∧
      (definition.merge results).outcome = .ok merged

theorem validate_returns {input : Bytes} {chunks : List Bytes} {merged : Bytes} :
    definition.validate.value.Returns input chunks merged ↔
      definition.Returns input chunks merged := by
  constructor
  · rintro ⟨hsplit, hparts⟩
    simp only [validate_split, validate_execute, validate_merge] at hsplit hparts
    exact ⟨hsplit, hparts⟩
  · rintro ⟨hsplit, hparts⟩
    refine ⟨?_, ?_⟩
    · rwa [validate_split]
    · rwa [validate_execute, validate_merge]

end Definition

namespace JobRecord

variable (record : JobRecord)

theorem work_eq_run :
    (record.definition.run record.input).elapsed = record.work.elapsed ∧
      (record.definition.run record.input).outcome = record.work.outcome.map Prod.snd ∧
      (record.definition.run record.input).invocations = record.work.invocations := by
  unfold work Definition.run
  cases hsplit : (record.definition.split record.input).outcome with
  | error failure =>
    rw [Work.bind_error _ hsplit, Work.bind_error _ hsplit]
    exact ⟨rfl, rfl, rfl⟩
  | ok chunks =>
    rw [Work.bind_ok _ hsplit, Work.bind_ok _ hsplit]
    cases hresults : (Work.forEach record.definition.execute chunks).outcome with
    | error failure =>
      rw [Work.bind_error _ hresults, Work.bind_error _ hresults]
      exact ⟨rfl, rfl, rfl⟩
    | ok results =>
      rw [Work.bind_ok _ hresults, Work.bind_ok _ hresults]
      cases hmerge : (record.definition.merge results).outcome with
      | error failure =>
        rw [Work.bind_error _ hmerge]
        exact ⟨rfl, rfl, rfl⟩
      | ok merged =>
        rw [Work.bind_ok _ hmerge]
        refine ⟨by simp [pure, Work.done], rfl, by simp [pure, Work.done]⟩

/-- The work on a record comes to its end just if all functions of the job return. -/
theorem work_eq_ok_iff {chunks : List Bytes} {merged : Bytes} :
    record.work.outcome = .ok (chunks, merged) ↔
      record.definition.Returns record.input chunks merged := by
  unfold work
  constructor
  · intro hwork
    cases hsplit : (record.definition.split record.input).outcome with
    | error failure =>
      rw [Work.bind_error _ hsplit] at hwork
      cases hwork
    | ok pieces =>
      rw [Work.bind_ok _ hsplit] at hwork
      cases hresults : (Work.forEach record.definition.execute pieces).outcome with
      | error failure =>
        rw [Work.bind_error _ hresults] at hwork
        cases hwork
      | ok results =>
        rw [Work.bind_ok _ hresults] at hwork
        cases hmerge : (record.definition.merge results).outcome with
        | error failure =>
          rw [Work.bind_error _ hmerge] at hwork
          cases hwork
        | ok whole =>
          rw [Work.bind_ok _ hmerge] at hwork
          cases hwork
          exact ⟨hsplit, results, Work.forEach_eq_ok_iff.mp hresults, hmerge⟩
  · rintro ⟨hsplit, results, hexecuted, hmerge⟩
    have hresults := Work.forEach_eq_ok_iff.mpr hexecuted
    rw [Work.bind_ok _ hsplit, Work.bind_ok _ hresults, Work.bind_ok _ hmerge]
    rfl

end JobRecord

end Offload
