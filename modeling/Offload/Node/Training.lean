import Offload.Node.Query
import Offload.Record.Training

namespace Offload.Query

def startTraining (task : TrainingTask) : Query (Bool × Bytes) :=
  status (utf8 "starting training task " ++ task.id) "startMLTraining"
    (.ofMembers [("task", Wire.encode task)]) .control

def trainingStatus (id : Bytes) : Query (Option TrainingStatus) :=
  value (utf8 "getting training status of " ++ id) "getMLTrainingStatus"
    (.ofMembers [("taskId", Wire.encode id)]) .query "status"

def stopTraining (id : Bytes) : Query Bool :=
  success (utf8 "stopping training task " ++ id) "stopMLTraining"
    (.ofMembers [("taskId", Wire.encode id)]) .control

def submitGradient (update : GradientUpdate) : Query Bool :=
  { success (utf8 "submitting gradient from " ++ update.worker) "submitGradient"
      (.ofMembers [("update", Wire.encode update)]) .bulk with
    blobs := [update.gradients], guarded := false }

def modelUpdate (version : UInt32) : Query (Option ModelUpdate) where
  purpose := utf8 "getting model update " ++ showNat version
  method := "getModelUpdate"
  params := .ofMembers [("modelVersion", Wire.encode version)]
  patience := .bulk
  read reply := do
    if ← Attempt.ofExcept (succeeded reply) then
      let update ← Attempt.ofExcept (reply.field "update")
      return some update
    else
      let _ ← logRefusal (utf8 "Node has no model update " ++ showNat version) reply
      return none
  failed _ := none

end Offload.Query
