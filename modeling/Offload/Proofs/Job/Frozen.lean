import Offload.Job.Builder
import Offload.Proofs.Job.Definition

namespace Offload

namespace Definition

/-- What can be done with a definition in the making, and with a builder. -/
inductive Step
  | setSplit (f : Option SplitFunction)
  | setExecute (f : Option ExecuteFunction)
  | setMerge (f : Option MergeFunction)
  | addMetadata (key : Bytes) (value : Json)
  | validate

def perform (definition : Definition) : Step → Attempt Definition
  | .setSplit f => .ofExcept (definition.setSplit f)
  | .setExecute f => .ofExcept (definition.setExecute f)
  | .setMerge f => .ofExcept (definition.setMerge f)
  | .addMetadata key value => .ofExcept (definition.addMetadata key value)
  | .validate => ExceptT.lift definition.validate

namespace Step

def split? : Step → Option (Option SplitFunction)
  | .setSplit f => some f
  | _ => none

def execute? : Step → Option (Option ExecuteFunction)
  | .setExecute f => some f
  | _ => none

def merge? : Step → Option (Option MergeFunction)
  | .setMerge f => some f
  | _ => none

def value? (key : Bytes) : Step → Option Json
  | .addMetadata other value => if other = key then some value else none
  | _ => none

end Step

/-- What is brought last before the first validation. -/
def last {α : Type} (brings : Step → Option α) : List Step → Option α
  | [] => none
  | .validate :: _ => none
  | step :: steps => (last brings steps).or (brings step)

/-- The job with the functions that are set last before the first validation. -/
def given (definition : Definition) (steps : List Step) : Definition :=
  { name := definition.name
    name_ne := definition.name_ne
    splitFunction := (last Step.split? steps).getD definition.splitFunction
    executeFunction := (last Step.execute? steps).getD definition.executeFunction
    mergeFunction := (last Step.merge? steps).getD definition.mergeFunction }

section Steps

variable {σ : Type} (perform : σ → Step → Attempt σ)

/-- The state after a step. A step that fails leaves the state as it is. -/
def advance (state : σ) (step : Step) : σ :=
  match (perform state step).run.value with
  | .ok next => next
  | .error _ => state

def after (start : σ) (steps : List Step) : σ := steps.foldl (advance perform) start

variable {perform} {state next : σ} {step : Step} {entries : List Entry}

theorem advance_of_ok (hstep : (perform state step).run = ⟨.ok next, entries⟩) :
    advance perform state step = next := by
  rw [advance, hstep]

theorem advance_of_error {failure : Failure}
    (hstep : (perform state step).run = ⟨.error failure, entries⟩) :
    advance perform state step = state := by
  rw [advance, hstep]

@[simp] theorem after_nil (start : σ) : after perform start [] = start := rfl

@[simp] theorem after_cons (start : σ) (step : Step) (steps : List Step) :
    after perform start (step :: steps) = after perform (advance perform start step) steps := rfl

@[simp] theorem after_append (start : σ) (steps more : List Step) :
    after perform start (steps ++ more) = after perform (after perform start steps) more :=
  List.foldl_append

end Steps

/-- Validated, with all three functions there. -/
structure Complete (definition : Definition) : Prop where
  split : definition.splitFunction.isSome = true
  execute : definition.executeFunction.isSome = true
  merge : definition.mergeFunction.isSome = true
  validated : definition.validated = true

/-- The same job: one name, and functions that do the same. -/
structure SameJob (first second : Definition) : Prop where
  name : first.name = second.name
  split : first.split = second.split
  execute : first.execute = second.execute
  merge : first.merge = second.merge
  run : first.run = second.run

/-- Alike for all who use them: the same job with the same metadata. -/
structure Alike (first second : Definition) : Prop extends SameJob first second where
  metadata : first.metadata = second.metadata

variable {definition : Definition} {step : Step}

theorem validate_alike (definition : Definition) : definition.validate.value.Alike definition where
  name := definition.validate_name
  metadata := definition.validate_metadata
  split := definition.validate_split
  execute := definition.validate_execute
  merge := definition.validate_merge
  run := definition.validate_run

theorem validate_of_open (hopen : definition.validated = false) :
    definition.validate.value.Complete := by
  rw [validate, if_neg (by simp [hopen])]
  constructor <;> rfl

theorem validate_of_validated (hvalidated : definition.validated = true) :
    definition.validate = ⟨definition, []⟩ := by
  rw [validate, if_pos hvalidated]

theorem requireOpen_of_open (hopen : definition.validated = false) (part : String) :
    definition.requireOpen part = .ok () := by
  rw [requireOpen, if_neg (by simp [hopen])]

theorem requireOpen_of_validated (hvalidated : definition.validated = true) (part : String) :
    definition.requireOpen part = .error (.definitionFrozen definition.name (utf8 part)) := by
  rw [requireOpen, if_pos hvalidated]

/-- What a step makes of an open definition. -/
def changed (definition : Definition) : Step → Definition
  | .setSplit f => { definition with splitFunction := f }
  | .setExecute f => { definition with executeFunction := f }
  | .setMerge f => { definition with mergeFunction := f }
  | .addMetadata key value => { definition with metadata := definition.metadata.insert key value }
  | .validate => definition.validate.value

theorem changed_open (hopen : definition.validated = false) (hother : step ≠ .validate) :
    (definition.changed step).validated = false := by
  cases step with
  | validate => exact (hother rfl).elim
  | _ => exact hopen

theorem perform_of_open (hopen : definition.validated = false) (step : Step) :
    ∃ entries, (definition.perform step).run = ⟨.ok (definition.changed step), entries⟩ := by
  have hfree := requireOpen_of_open hopen
  cases step with
  | setSplit f => exact ⟨[], by rw [perform, setSplit, hfree]; rfl⟩
  | setExecute f => exact ⟨[], by rw [perform, setExecute, hfree]; rfl⟩
  | setMerge f => exact ⟨[], by rw [perform, setMerge, hfree]; rfl⟩
  | addMetadata key value => exact ⟨[], by rw [perform, addMetadata, hfree]; rfl⟩
  | validate => exact ⟨_, rfl⟩

theorem perform_of_validated (hvalidated : definition.validated = true) :
    (definition.perform .validate).run = ⟨.ok definition, []⟩ ∧
      ∀ step ≠ .validate, ∃ failure,
        (definition.perform step).run = ⟨.error failure, []⟩ ∧ failure.kind = .state := by
  have hfrozen := requireOpen_of_validated hvalidated
  refine ⟨by rw [perform, Attempt.run_lift, validate_of_validated hvalidated], fun step hother => ?_⟩
  cases step with
  | setSplit f => exact ⟨_, by rw [perform, setSplit, hfrozen]; rfl, rfl⟩
  | setExecute f => exact ⟨_, by rw [perform, setExecute, hfrozen]; rfl, rfl⟩
  | setMerge f => exact ⟨_, by rw [perform, setMerge, hfrozen]; rfl, rfl⟩
  | addMetadata key value => exact ⟨_, by rw [perform, addMetadata, hfrozen]; rfl, rfl⟩
  | validate => exact (hother rfl).elim

theorem advance_of_open (hopen : definition.validated = false) (step : Step) :
    advance perform definition step = definition.changed step := by
  obtain ⟨entries, hstep⟩ := perform_of_open hopen step
  exact advance_of_ok hstep

theorem advance_of_validated (hvalidated : definition.validated = true) (step : Step) :
    advance perform definition step = definition := by
  obtain ⟨hvalidate, hothers⟩ := perform_of_validated hvalidated
  by_cases hstep : step = .validate
  · exact advance_of_ok (hstep ▸ hvalidate)
  · obtain ⟨failure, hfailed, -⟩ := hothers step hstep
    exact advance_of_error hfailed

theorem after_of_validated (hvalidated : definition.validated = true) (steps : List Step) :
    after perform definition steps = definition := by
  induction steps with
  | nil => rfl
  | cons step steps ih => rw [after_cons, advance_of_validated hvalidated, ih]

theorem after_open (hopen : definition.validated = false) {steps : List Step}
    (hnever : .validate ∉ steps) : (after perform definition steps).validated = false := by
  induction steps generalizing definition with
  | nil => exact hopen
  | cons step steps ih =>
    have hother : step ≠ .validate := fun hstep => hnever (hstep ▸ List.mem_cons_self)
    rw [after_cons, advance_of_open hopen]
    exact ih (changed_open hopen hother) fun hmem => hnever (List.mem_cons_of_mem _ hmem)

theorem after_complete (hopen : definition.validated = false) {steps : List Step}
    (honce : .validate ∈ steps) : (after perform definition steps).Complete := by
  induction steps generalizing definition with
  | nil => cases honce
  | cons step steps ih =>
    rw [after_cons, advance_of_open hopen]
    by_cases hstep : step = .validate
    · have hcomplete : (definition.changed step).Complete := hstep ▸ validate_of_open hopen
      rwa [after_of_validated hcomplete.validated]
    · exact ih (changed_open hopen hstep) ((List.mem_cons.mp honce).resolve_left (Ne.symm hstep))

theorem advance_ordered (hordered : definition.metadata.Ordered) (step : Step) :
    (advance perform definition step).metadata.Ordered := by
  cases hvalidated : definition.validated with
  | true => rwa [advance_of_validated hvalidated]
  | false =>
    rw [advance_of_open hvalidated]
    cases step with
    | addMetadata key value => exact hordered.insert key value
    | validate => rwa [changed, validate_metadata]
    | _ => exact hordered

theorem after_ordered (hordered : definition.metadata.Ordered) (steps : List Step) :
    (after perform definition steps).metadata.Ordered := by
  induction steps generalizing definition with
  | nil => exact hordered
  | cons step steps ih => exact ih (advance_ordered hordered step)

theorem last_cons {α : Type} (brings : Step → Option α) (hother : step ≠ .validate)
    (steps : List Step) : last brings (step :: steps) = (last brings steps).or (brings step) := by
  cases step with
  | validate => exact (hother rfl).elim
  | _ => rfl

theorem given_cons (hother : step ≠ .validate) (steps : List Step) :
    definition.given (step :: steps) = (definition.changed step).given steps := by
  rw [given, last_cons _ hother, last_cons _ hother, last_cons _ hother, Option.getD_or, Option.getD_or,
    Option.getD_or]
  cases step with
  | validate => exact (hother rfl).elim
  | _ => rfl

theorem after_sameJob (hopen : definition.validated = false) (steps : List Step) :
    (after perform definition steps).SameJob (definition.given steps) := by
  induction steps generalizing definition with
  | nil => exact ⟨rfl, rfl, rfl, rfl, rfl⟩
  | cons step steps ih =>
    rw [after_cons, advance_of_open hopen]
    by_cases hstep : step = .validate
    · subst hstep
      have hcomplete : definition.validate.value.Complete := validate_of_open hopen
      obtain ⟨hname, hsplit, hexecute, hmerge, hrun⟩ := definition.validate_alike.toSameJob
      rw [changed, after_of_validated hcomplete.validated]
      exact ⟨hname, hsplit, hexecute, hmerge, hrun⟩
    · rw [given_cons hstep]
      exact ih (changed_open hopen hstep)

theorem get?_changed (key : Bytes) (step : Step) :
    (definition.changed step).metadata.get? key =
      (step.value? key).or (definition.metadata.get? key) := by
  cases step with
  | addMetadata other value =>
    rw [changed, Fields.get?_insert, Step.value?]
    split <;> rfl
  | validate =>
    rw [changed, validate_metadata]
    rfl
  | _ => rfl

theorem after_metadata (hopen : definition.validated = false) (steps : List Step) (key : Bytes) :
    (after perform definition steps).metadata.get? key =
      (last (Step.value? key) steps).or (definition.metadata.get? key) := by
  induction steps generalizing definition with
  | nil => rfl
  | cons step steps ih =>
    rw [after_cons, advance_of_open hopen]
    by_cases hstep : step = .validate
    · subst hstep
      have hcomplete : definition.validate.value.Complete := validate_of_open hopen
      rw [changed, after_of_validated hcomplete.validated, validate_metadata]
      rfl
    · rw [ih (changed_open hopen hstep), get?_changed, last_cons _ hstep, Option.or_assoc]

/-- What starts open freezes at its first validation, and stays as it then is. A state may hold its
definition along with other things. -/
structure Freezes {σ : Type} (perform : σ → Step → Attempt σ) (held : σ → Definition) (start : σ) :
    Prop where
  /-- Until then every step is taken. -/
  opened : ∀ steps, .validate ∉ steps → ∀ step, ∃ next entries,
    (perform (after perform start steps) step).run = ⟨.ok next, entries⟩
  /-- Validation is taken at any time, and makes a difference to nobody who uses the definition. -/
  validated : ∀ steps, ∃ next entries,
    (perform (after perform start steps) .validate).run = ⟨.ok next, entries⟩ ∧
      (held next).Complete ∧ (held next).Alike (held (after perform start steps))
  /-- From then on validation says nothing and changes nothing, and all else is refused. -/
  frozen : ∀ steps, .validate ∈ steps →
    (held (after perform start steps)).Complete ∧
      (perform (after perform start steps) .validate).run = ⟨.ok (after perform start steps), []⟩ ∧
      ∀ step ≠ .validate, ∃ failure,
        (perform (after perform start steps) step).run = ⟨.error failure, []⟩ ∧ failure.kind = .state
  lasting : ∀ steps, .validate ∈ steps → ∀ more,
    after perform start (steps ++ more) = after perform start steps
  /-- At any time the functions that work are those that were set last in time, or the defaults. -/
  works : ∀ steps, (held (after perform start steps)).SameJob ((held start).given steps)
  /-- A manifest has the last value that each key was given in time, and nothing else. -/
  manifest : ∀ steps input options, options.Valid → ∃ manifest,
    (held (after perform start steps)).toManifest input options = .ok manifest ∧
      manifest.metadata.Ordered ∧ ∀ key, manifest.metadata.get? key = last (Step.value? key) steps

/-- What a definition is made as. -/
structure Fresh (definition : Definition) : Prop where
  opened : definition.validated = false
  metadata : definition.metadata = []

theorem make_fresh {name : Bytes} (hname : name ≠ []) :
    ∃ definition, make name = .ok definition ∧ definition.Fresh :=
  ⟨{ name, name_ne := hname }, dif_pos hname, rfl, rfl⟩

theorem Fresh.freezes (hfresh : definition.Fresh) : Freezes perform id definition where
  opened steps hnever step := by
    obtain ⟨entries, hstep⟩ := perform_of_open (after_open hfresh.opened hnever) step
    exact ⟨_, entries, hstep⟩
  validated steps := by
    refine ⟨_, _, rfl, ?_, validate_alike _⟩
    by_cases honce : .validate ∈ steps
    · have hcomplete := after_complete hfresh.opened honce
      rw [validate_of_validated hcomplete.validated]
      exact hcomplete
    · exact validate_of_open (after_open hfresh.opened honce)
  frozen steps honce :=
    have hcomplete := after_complete hfresh.opened honce
    ⟨hcomplete, perform_of_validated hcomplete.validated⟩
  lasting steps honce more := by
    rw [after_append, after_of_validated (after_complete hfresh.opened honce).validated]
  works := after_sameJob hfresh.opened
  manifest steps input options hvalid := by
    have hordered : definition.metadata.Ordered := by
      rw [hfresh.metadata]
      exact List.Pairwise.nil
    refine ⟨_, toManifest_of_valid _ hvalid input, after_ordered hordered steps, fun key => ?_⟩
    rw [manifest, id, after_metadata hfresh.opened, hfresh.metadata, Fields.get?_nil, Option.or_none]

end Definition

namespace Builder

open Definition (after advance Freezes)

def perform (builder : Builder) : Definition.Step → Attempt Builder
  | .setSplit f => .ofExcept (builder.withSplit f)
  | .setExecute f => .ofExcept (builder.withExecute f)
  | .setMerge f => .ofExcept (builder.withMerge f)
  | .addMetadata key value => .ofExcept (builder.withMetadata key value)
  | .validate => ExceptT.lift (Prod.snd <$> builder.build)

variable {definition next : Definition} {step : Definition.Step} {entries : List Entry}

theorem perform_run (definition : Definition) (step : Definition.Step) :
    (perform ⟨definition⟩ step).run =
      ⟨mk <$> (definition.perform step).run.value, (definition.perform step).run.entries⟩ := by
  cases step with
  | validate =>
    rw [perform, Definition.perform, Attempt.run_lift, Attempt.run_lift, Logged.map_eq, build_eq]
    rfl
  | _ => rfl

theorem perform_of_ok (hstep : (definition.perform step).run = ⟨.ok next, entries⟩) :
    (perform ⟨definition⟩ step).run = ⟨.ok ⟨next⟩, entries⟩ := by
  rw [perform_run, hstep]
  rfl

theorem perform_of_error {failure : Failure}
    (hstep : (definition.perform step).run = ⟨.error failure, entries⟩) :
    (perform ⟨definition⟩ step).run = ⟨.error failure, entries⟩ := by
  rw [perform_run, hstep]
  rfl

theorem advance_mk (definition : Definition) (step : Definition.Step) :
    advance perform ⟨definition⟩ step = ⟨advance Definition.perform definition step⟩ := by
  rw [advance, perform_run, advance]
  cases (definition.perform step).run.value <;> rfl

theorem after_mk (definition : Definition) (steps : List Definition.Step) :
    after perform ⟨definition⟩ steps = ⟨after Definition.perform definition steps⟩ := by
  induction steps generalizing definition with
  | nil => rfl
  | cons step steps ih => rw [Definition.after_cons, Definition.after_cons, advance_mk, ih]

theorem freezes (hfreezes : Freezes Definition.perform id definition) :
    Freezes perform Builder.definition ⟨definition⟩ where
  opened steps hnever step := by
    obtain ⟨next, entries, hstep⟩ := hfreezes.opened steps hnever step
    exact ⟨⟨next⟩, entries, by rw [after_mk, perform_of_ok hstep]⟩
  validated steps := by
    obtain ⟨next, entries, hstep, hnext⟩ := hfreezes.validated steps
    rw [after_mk]
    exact ⟨⟨next⟩, entries, perform_of_ok hstep, hnext⟩
  frozen steps honce := by
    obtain ⟨hcomplete, hvalidate, hothers⟩ := hfreezes.frozen steps honce
    rw [after_mk]
    refine ⟨hcomplete, perform_of_ok hvalidate, fun step hother => ?_⟩
    obtain ⟨failure, hfailed, hkind⟩ := hothers step hother
    exact ⟨failure, perform_of_error hfailed, hkind⟩
  lasting steps honce more := by
    rw [after_mk, after_mk, hfreezes.lasting steps honce more]
  works steps := by
    rw [after_mk]
    exact hfreezes.works steps
  manifest steps input options hvalid := by
    rw [after_mk]
    exact hfreezes.manifest steps input options hvalid

end Builder

/-- A definition freezes at its first validation, and so does the one of a builder at its first build,
whichever steps come before and after. What a builder hands out is what it holds. -/
theorem Definition.validation_freezes {name : Bytes} (hname : name ≠ []) :
    ∃ definition, Definition.make name = .ok definition ∧ Builder.make name = .ok ⟨definition⟩ ∧
      Freezes Definition.perform id definition ∧
      Freezes Builder.perform Builder.definition ⟨definition⟩ ∧
      ∀ builder : Builder, builder.build.value.1 = builder.build.value.2.definition := by
  obtain ⟨definition, hmake, hfresh⟩ := make_fresh hname
  refine ⟨definition, hmake, by rw [Builder.make, hmake]; rfl, hfresh.freezes,
    Builder.freezes hfresh.freezes, fun builder => ?_⟩
  rw [builder.build_eq]

namespace Definition

/-- An owner is set twice before the validation, and once after it. -/
def ownerSteps : List Step :=
  [.addMetadata (utf8 "owner") (.int 1), .setMerge none, .addMetadata (utf8 "owner") (.int 2),
    .validate, .addMetadata (utf8 "owner") (.int 3)]

/-- The manifest names the second owner. -/
theorem validation_freezes_owner :
    utf8 "plain" ≠ [] ∧ ∃ definition, make (utf8 "plain") = .ok definition ∧
      (after perform definition ownerSteps).Complete ∧
      (∃ failure, ((after perform definition ownerSteps).perform (.setMerge none)).run =
        ⟨.error failure, []⟩) ∧
      ∃ manifest, (after perform definition ownerSteps).toManifest [] {} = .ok manifest ∧
        manifest.metadata.get? (utf8 "owner") = some (.int 2) := by
  have hname : utf8 "plain" ≠ [] := by decide
  have honce : .validate ∈ ownerSteps := by simp [ownerSteps]
  obtain ⟨definition, hmake, -, hfreezes, -⟩ := validation_freezes hname
  obtain ⟨hcomplete, -, hothers⟩ := hfreezes.frozen ownerSteps honce
  obtain ⟨failure, hfailed, -⟩ := hothers (.setMerge none) nofun
  obtain ⟨manifest, hmanifest, -, hmetadata⟩ :=
    hfreezes.manifest ownerSteps [] {} Options.valid_default
  exact ⟨hname, definition, hmake, hcomplete, ⟨failure, hfailed⟩, manifest, hmanifest,
    hmetadata (utf8 "owner")⟩

end Definition

end Offload
