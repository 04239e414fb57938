import Offload.Job.Manifest

namespace Offload

theorem Strategy.exists_name_iff {name : Bytes} :
    (∃ strategy : Strategy, name = strategy.name) ↔
      name ∈ [utf8 "fixed_size", utf8 "line_based", utf8 "record_based", utf8 "adaptive"] := by
  constructor
  · rintro ⟨strategy, rfl⟩
    cases strategy <;> simp [Strategy.name]
  · intro hname
    simp only [List.mem_cons, List.not_mem_nil, or_false] at hname
    rcases hname with rfl | rfl | rfl | rfl
    · exact ⟨.fixedSize, rfl⟩
    · exact ⟨.lineBased, rfl⟩
    · exact ⟨.recordBased, rfl⟩
    · exact ⟨.adaptive, rfl⟩

theorem Strategy.ofName_of_unknown {name : Bytes}
    (hunknown : ¬ ∃ strategy : Strategy, name = strategy.name) :
    Strategy.ofName name = .error (.unknownStrategy name) := by
  unfold Strategy.ofName
  split
  · next strategy hfind =>
    have hsame := List.find?_some hfind
    exact (hunknown ⟨strategy, (of_decide_eq_true hsame).symm⟩).elim
  · rfl

namespace Options

variable {options : Options}

/-- Options that a submission takes: bounds in order, and one of the four strategy names. -/
structure Valid (options : Options) : Prop where
  bounds : options.minChunkSize ≤ options.maxChunkSize
  strategy : ∃ strategy : Strategy, options.splitStrategy = strategy.name

theorem valid_default : ({} : Options).Valid :=
  ⟨by decide, .fixedSize, rfl⟩

theorem not_valid_iff :
    ¬ options.Valid ↔ options.maxChunkSize < options.minChunkSize ∨
      options.splitStrategy ∉
        [utf8 "fixed_size", utf8 "line_based", utf8 "record_based", utf8 "adaptive"] := by
  rw [← Strategy.exists_name_iff]
  constructor
  · intro hinvalid
    by_cases hbounds : options.maxChunkSize < options.minChunkSize
    · exact .inl hbounds
    · exact .inr fun hstrategy => hinvalid ⟨UInt64.not_lt.mp hbounds, hstrategy⟩
  · rintro hcases ⟨hbounds, hstrategy⟩
    rcases hcases with hreversed | hunknown
    · exact UInt64.not_lt.mpr hbounds hreversed
    · exact hunknown hstrategy

/-- What is said against options that are not taken. The bounds are looked at first. -/
def objection (options : Options) : Failure :=
  if options.maxChunkSize < options.minChunkSize then .jobBoundsReversed
  else .unknownStrategy options.splitStrategy

theorem objection_kind (options : Options) : options.objection.kind = .argument := by
  unfold objection
  split <;> rfl

end Options

namespace Definition

variable (definition : Definition)

@[simp] theorem validate_name : definition.validate.value.name = definition.name := by
  unfold validate
  split <;> rfl

@[simp] theorem validate_metadata : definition.validate.value.metadata = definition.metadata := by
  unfold validate
  split <;> rfl

@[simp] theorem validate_split : definition.validate.value.split = definition.split := by
  unfold validate
  split
  · rfl
  · funext input
    cases hsplit : definition.splitFunction <;> simp [split, hsplit]

@[simp] theorem validate_execute : definition.validate.value.execute = definition.execute := by
  unfold validate
  split
  · rfl
  · funext chunk
    cases hexecute : definition.executeFunction <;> simp [execute, hexecute]

@[simp] theorem validate_merge : definition.validate.value.merge = definition.merge := by
  unfold validate
  split
  · rfl
  · funext results
    cases hmerge : definition.mergeFunction <;> simp [merge, hmerge]

@[simp] theorem validate_run : definition.validate.value.run = definition.run := by
  funext input
  simp [run]

/-- The manifest of a job under the given options, whether these are valid or not. -/
def manifest (input : Bytes) (options : Options) : Manifest :=
  { id := Identity.make definition.name input
    program := Manifest.builtinMark
    input
    options
    metadata := definition.metadata }

@[simp] theorem validate_manifest (input : Bytes) (options : Options) :
    definition.validate.value.manifest input options = definition.manifest input options := by
  simp [manifest]

theorem toManifest_of_valid {options : Options} (hvalid : options.Valid) (input : Bytes) :
    definition.toManifest input options = .ok (definition.manifest input options) := by
  obtain ⟨strategy, hstrategy⟩ := hvalid.strategy
  have hname : Strategy.ofName options.splitStrategy = .ok strategy :=
    hstrategy ▸ Strategy.ofName_name strategy
  have hbounds : ¬ options.maxChunkSize < options.minChunkSize := UInt64.not_lt.mpr hvalid.bounds
  simp only [toManifest, if_neg hbounds, hname]
  rfl

theorem toManifest_of_invalid {options : Options} (hinvalid : ¬ options.Valid) (input : Bytes) :
    definition.toManifest input options = .error options.objection := by
  by_cases hbounds : options.maxChunkSize < options.minChunkSize
  · simp only [toManifest, Options.objection, if_pos hbounds]
    rfl
  · have hunknown : ¬ ∃ strategy : Strategy, options.splitStrategy = strategy.name :=
      fun hstrategy => hinvalid ⟨UInt64.not_lt.mp hbounds, hstrategy⟩
    simp only [toManifest, Options.objection, if_neg hbounds, Strategy.ofName_of_unknown hunknown]
    rfl

theorem toManifest_eq_ok_iff {input : Bytes} {options : Options} {result : Manifest} :
    definition.toManifest input options = .ok result ↔
      options.Valid ∧ result = definition.manifest input options := by
  by_cases hvalid : options.Valid
  · rw [toManifest_of_valid definition hvalid, Except.ok.injEq]
    exact ⟨fun hresult => ⟨hvalid, hresult.symm⟩, fun hresult => hresult.2.symm⟩
  · rw [toManifest_of_invalid definition hvalid]
    exact ⟨nofun, fun hresult => (hvalid hresult.1).elim⟩

end Definition

end Offload
