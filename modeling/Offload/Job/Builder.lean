import Offload.Job.Definition

namespace Offload

structure Builder where
  definition : Definition

namespace Builder

def make (name : Bytes) : Except Failure Builder := return ⟨← Definition.make name⟩

def withSplit (builder : Builder) (f : Option SplitFunction) : Except Failure Builder :=
  return ⟨← builder.definition.setSplit f⟩

def withExecute (builder : Builder) (f : Option ExecuteFunction) : Except Failure Builder :=
  return ⟨← builder.definition.setExecute f⟩

def withMerge (builder : Builder) (f : Option MergeFunction) : Except Failure Builder :=
  return ⟨← builder.definition.setMerge f⟩

def withMetadata (builder : Builder) (key : Bytes) (value : Json) : Except Failure Builder :=
  return ⟨← builder.definition.addMetadata key value⟩

def build (builder : Builder) : Logged (Definition × Builder) := do
  let definition ← builder.definition.validate
  return (definition, ⟨definition⟩)

theorem build_eq (builder : Builder) :
    builder.build = ⟨(builder.definition.validate.value, ⟨builder.definition.validate.value⟩),
      builder.definition.validate.entries⟩ :=
  congrArg (Logged.mk _) (List.append_nil _)

end Builder

end Offload
