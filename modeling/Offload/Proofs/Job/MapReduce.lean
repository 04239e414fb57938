import Offload.Job.Builder
import Offload.Proofs.Chunk.Slices
import Offload.Proofs.Job.Work

namespace Offload

open Chunker

theorem defaultSplit_eq {size : UInt64} (hsize : 0 < size) {data : Bytes}
    (hdata : data.length < 2 ^ 63) : defaultSplit size data = .ok (slices size.toNat data) := by
  rw [defaultSplit, dif_pos hsize]
  exact congrArg Except.ok (splitFixed_eq_slices _ hdata)

/-- Parts may be worked on one by one and put together afterwards. -/
def Distributes (f : Bytes → Bytes) : Prop := ∀ front back, f (front ++ back) = f front ++ f back

namespace Distributes

variable {f : Bytes → Bytes}

theorem nil (hf : Distributes f) : f [] = [] :=
  List.self_eq_append_right.mp (hf [] [])

theorem flatten (hf : Distributes f) (pieces : List Bytes) :
    (pieces.map f).flatten = f pieces.flatten := by
  induction pieces with
  | nil => exact hf.nil.symm
  | cons piece rest ih => rw [List.map_cons, List.flatten_cons, ih, List.flatten_cons, hf]

end Distributes

namespace Definition

def mapped : Option ExecuteFunction → Bytes → Except Failure Bytes
  | none, piece => .ok piece
  | some mapper, piece => (mapper piece).outcome

def reduced : Option MergeFunction → List Bytes → Except Failure Bytes
  | none, results => .ok results.flatten
  | some reducer, results => (reducer results).outcome

/-- The pieces are mapped in order, up to the first failure, and the results are reduced. -/
def mapReduced (mapper : Option ExecuteFunction) (reducer : Option MergeFunction)
    (pieces : List Bytes) : Except Failure Bytes := do
  let results ← pieces.mapM (mapped mapper)
  reduced reducer results

theorem execute_outcome (definition : Definition) (piece : Bytes) :
    (definition.execute piece).outcome = mapped definition.executeFunction piece := by
  rw [execute]
  cases definition.executeFunction <;> rfl

theorem merge_outcome (definition : Definition) (results : List Bytes) :
    (definition.merge results).outcome = reduced definition.mergeFunction results := by
  rw [merge]
  cases definition.mergeFunction <;> rfl

/-- A run maps and reduces what the input is split into. -/
theorem run_outcome (definition : Definition) (input : Bytes) :
    (definition.run input).outcome =
      (definition.split input).outcome >>=
        mapReduced definition.executeFunction definition.mergeFunction := by
  rw [run, Work.bind_outcome]
  refine congrArg _ (funext fun pieces => ?_)
  rw [Work.bind_outcome, Work.forEach_outcome, mapReduced]
  simp only [execute_outcome, merge_outcome]

variable {name : Bytes} {mapper : Option ExecuteFunction} {reducer : Option MergeFunction}
  {size : UInt64} {input : Bytes}

/-- A job over pieces, as it is before its validation. -/
def overPieces (hname : name ≠ []) (mapper : Option ExecuteFunction) (reducer : Option MergeFunction)
    (size : UInt64) : Definition :=
  { name
    splitFunction := some (splitBySize size)
    executeFunction := mapper
    mergeFunction := reducer
    name_ne := hname }

theorem mapReduce_eq (hname : name ≠ []) (hsize : 0 < size) :
    mapReduce name mapper reducer size =
      ExceptT.lift (overPieces hname mapper reducer size).validate := by
  rw [mapReduce, if_neg (UInt64.pos_iff_ne_zero.mp hsize), make, dif_pos hname]
  rfl

theorem mapReduce_eq_build (hsize : 0 < size) :
    mapReduce name mapper reducer size =
      Attempt.ofExcept (Builder.make name >>= (·.withSplit (some (splitBySize size))) >>=
          (·.withExecute mapper) >>= (·.withMerge reducer)) >>=
        fun builder => ExceptT.lift (Prod.fst <$> builder.build) := by
  by_cases hname : name ≠ []
  · have hbuilder : (Builder.make name >>= (·.withSplit (some (splitBySize size))) >>=
          (·.withExecute mapper) >>= (·.withMerge reducer)) =
        .ok ⟨overPieces hname mapper reducer size⟩ := by
      rw [Builder.make, make, dif_pos hname]
      rfl
    rw [mapReduce_eq hname hsize, hbuilder]
    change ExceptT.lift _ = ExceptT.lift (Prod.fst <$> Builder.build ⟨_⟩)
    rw [Logged.map_eq, Builder.build_eq]
  · rw [mapReduce, Builder.make, make, if_neg (UInt64.pos_iff_ne_zero.mp hsize), dif_neg hname]
    rfl

/-- What a job gives on an input, from its making to the end of its run. -/
def outcomeOn (job : ExceptT Failure Logged Definition) (input : Bytes) : Except Failure Bytes := do
  let definition ← job.run.value
  (definition.run input).outcome

theorem outcomeOn_mapReduce (hname : name ≠ []) (hsize : 0 < size) (hinput : input.length < 2 ^ 63) :
    outcomeOn (mapReduce name mapper reducer size) input =
      mapReduced mapper reducer (slices size.toNat input) := by
  rw [outcomeOn, mapReduce_eq hname hsize, Attempt.run_lift]
  change (Definition.run _ input).outcome = _
  rw [validate_run, run_outcome]
  change (defaultSplit size input >>= mapReduced mapper reducer) = _
  rw [defaultSplit_eq hsize hinput]
  rfl

theorem mapReduced_of_returns {processor : ExecuteFunction} {f : Bytes → Bytes}
    (hreturns : ∀ piece, (processor piece).outcome = .ok (f piece)) (pieces : List Bytes) :
    mapReduced (some processor) (some mergeConcat) pieces = .ok (pieces.map f).flatten := by
  have hmapped : pieces.mapM (mapped (some processor)) = .ok (pieces.map f) := by
    rw [← Work.forEach_ok hreturns pieces, Work.forEach_outcome]
    rfl
  rw [mapReduced, hmapped]
  rfl

/-- A job over pieces does not depend on their size. Its run gives what the reducer makes of the images of
the consecutive slices of the input, where a missing mapper leaves the slices as they are and a missing
reducer puts the results together. A job without a reducer of its own, whose function always returns and
distributes over concatenation, gives what the function gives on the whole input, whatever the size. -/
theorem piece_size_immaterial (hname : name ≠ []) (hsize : 0 < size)
    (hinput : input.length < 2 ^ 63) :
    (∀ mapper reducer, outcomeOn (mapReduce name mapper reducer size) input =
        mapReduced mapper reducer (slices size.toNat input)) ∧
      ∀ (processor : ExecuteFunction) (f : Bytes → Bytes),
        (∀ piece, (processor piece).outcome = .ok (f piece)) → Distributes f →
        outcomeOn (parallel name (some processor) size) input = .ok (f input) ∧
          ∀ other : UInt64, 0 < other →
            outcomeOn (parallel name (some processor) other) input =
              outcomeOn (parallel name (some processor) size) input := by
  refine ⟨fun mapper reducer => outcomeOn_mapReduce hname hsize hinput, ?_⟩
  intro processor f hreturns hdistributes
  have hwhole : ∀ size : UInt64, 0 < size →
      outcomeOn (parallel name (some processor) size) input = .ok (f input) := by
    intro size hsize
    have hflatten : (slices size.toNat input).flatten = input := by
      rw [← splitFixed_eq_slices { chunkSize := size, chunkSize_pos := hsize } hinput]
      exact (splitFixed_lossless _ hinput).merged
    rw [parallel, outcomeOn_mapReduce hname hsize hinput, mapReduced_of_returns hreturns,
      hdistributes.flatten, hflatten]
  refine ⟨hwhole size hsize, fun other hother => ?_⟩
  rw [hwhole other hother, hwhole size hsize]

def upperCase (text : Bytes) : Bytes := text.map fun b => if 97 ≤ b ∧ b ≤ 122 then b - 32 else b

/-- Two bytes at a time, with one left over, or all at once. -/
theorem piece_size_immaterial_upperCase :
    Distributes upperCase ∧
      outcomeOn (parallel (utf8 "shout") (some fun piece => .done (upperCase piece)) 2) (utf8 "abcde") =
        .ok (utf8 "ABCDE") ∧
      outcomeOn (parallel (utf8 "shout") (some fun piece => .done (upperCase piece)) 9) (utf8 "abcde") =
        outcomeOn (parallel (utf8 "shout") (some fun piece => .done (upperCase piece)) 2)
          (utf8 "abcde") := by
  have hdistributes : Distributes upperCase := fun front back => List.map_append
  obtain ⟨_, hparallel⟩ := @piece_size_immaterial (utf8 "shout") 2 (utf8 "abcde") (by decide) (by decide)
    (by decide)
  obtain ⟨hwhole, hother⟩ := hparallel (fun piece => .done (upperCase piece)) upperCase (fun _ => rfl)
    hdistributes
  exact ⟨hdistributes, hwhole, hother 9 (by decide)⟩

end Definition

end Offload
