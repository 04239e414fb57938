import Offload.Chunk.Chunker
import Offload.Json.Basic
import Offload.Job.Work

namespace Offload

abbrev SplitFunction := Bytes → Work (List Bytes)

abbrev ExecuteFunction := Bytes → Work Bytes

abbrev MergeFunction := List Bytes → Work Bytes

/-- Pieces of the given size; the bounds of the chunker play no part. -/
def defaultSplit (size : UInt64) (data : Bytes) : Except Failure (List Bytes) :=
  if hsize : 0 < size then
    let chunker : Chunker :=
      { chunkSize := size, minSize := 1, maxSize := size, chunkSize_pos := hsize
        min_le_max := by
          have hpos : 0 < size.toNat := by simpa [UInt64.lt_iff_toNat_lt] using hsize
          exact UInt64.le_iff_toNat_le.mpr hpos }
    .ok (chunker.splitFixed data)
  else .error .zeroChunkSize

def defaultChunkSize : UInt64 := 65536

def splitBySize (size : UInt64) : SplitFunction := fun data => .ofExcept (defaultSplit size data)

def executeIdentity : ExecuteFunction := Work.done

def mergeConcat : MergeFunction := fun results => Work.done (Chunker.merge results)

structure Definition where
  name : Bytes
  splitFunction : Option SplitFunction := none
  executeFunction : Option ExecuteFunction := none
  mergeFunction : Option MergeFunction := none
  metadata : Fields Json := []
  validated : Bool := false
  name_ne : name ≠ []

namespace Definition

def make (name : Bytes) : Except Failure Definition :=
  if hname : name ≠ [] then .ok { name, name_ne := hname } else .error .emptyJobName

def requireOpen (definition : Definition) (part : String) : Except Failure Unit :=
  if definition.validated then .error (.definitionFrozen definition.name (utf8 part)) else .ok ()

def setSplit (definition : Definition) (f : Option SplitFunction) : Except Failure Definition := do
  definition.requireOpen "split"
  return { definition with splitFunction := f }

def setExecute (definition : Definition) (f : Option ExecuteFunction) :
    Except Failure Definition := do
  definition.requireOpen "execute"
  return { definition with executeFunction := f }

def setMerge (definition : Definition) (f : Option MergeFunction) : Except Failure Definition := do
  definition.requireOpen "merge"
  return { definition with mergeFunction := f }

def addMetadata (definition : Definition) (key : Bytes) (value : Json) :
    Except Failure Definition := do
  definition.requireOpen "metadata"
  return { definition with metadata := definition.metadata.insert key value }

def missingWarning (definition : Definition) (part substitute : String) : Entry :=
  .warning (utf8 "Job " ++ definition.name ++ utf8 " missing " ++ utf8 part
    ++ utf8 " function, using " ++ utf8 substitute)

/-- Fills in the defaults, with a warning for each, and freezes the definition. A frozen definition
stays as it is. -/
def validate (definition : Definition) : Logged Definition :=
  if definition.validated then ⟨definition, []⟩
  else
    ⟨{ definition with
        splitFunction := some (definition.splitFunction.getD (splitBySize defaultChunkSize))
        executeFunction := some (definition.executeFunction.getD executeIdentity)
        mergeFunction := some (definition.mergeFunction.getD mergeConcat)
        validated := true },
      (if definition.splitFunction.isNone then
        [definition.missingWarning "split" "default"] else [])
      ++ (if definition.executeFunction.isNone then
        [definition.missingWarning "execute" "identity"] else [])
      ++ (if definition.mergeFunction.isNone then
        [definition.missingWarning "merge" "default"] else [])⟩

def split (definition : Definition) : SplitFunction := fun input =>
  (definition.splitFunction.getD (splitBySize defaultChunkSize) input).asCall (.split input)

def execute (definition : Definition) : ExecuteFunction := fun chunk =>
  (definition.executeFunction.getD executeIdentity chunk).asCall (.execute chunk)

def merge (definition : Definition) : MergeFunction := fun results =>
  (definition.mergeFunction.getD mergeConcat results).asCall (.merge results)

def run (definition : Definition) (input : Bytes) : Work Bytes := do
  let chunks ← definition.split input
  let results ← Work.forEach definition.execute chunks
  definition.merge results

/-- A validated job that cuts its input into pieces of the given size, maps each and reduces the
results. -/
def mapReduce (name : Bytes) (mapper : Option ExecuteFunction) (reducer : Option MergeFunction)
    (chunkSize : UInt64) : ExceptT Failure Logged Definition := do
  if chunkSize = 0 then throw .zeroChunkSize
  let named ← Attempt.ofExcept (make name)
  ExceptT.lift <| validate
    { named with
      splitFunction := some (splitBySize chunkSize)
      executeFunction := mapper
      mergeFunction := reducer }

def parallel (name : Bytes) (processor : Option ExecuteFunction) (chunkSize : UInt64) :
    ExceptT Failure Logged Definition :=
  mapReduce name processor (some mergeConcat) chunkSize

end Definition

end Offload
