import Offload.Json.Wire

namespace Offload

open Number

structure TrainingTask where
  id : Bytes := []
  dataset : Bytes := []
  architecture : Bytes := []
  aggregator : Bytes := []
  workers : List Bytes := []
  hyperparameters : SortedMap Bytes := .empty
  epochs : UInt32 := 1

instance : Wire TrainingTask where
  encode v := .ofMembers
    [("taskId", Wire.encode v.id), ("datasetId", Wire.encode v.dataset),
     ("modelArchitecture", Wire.encode v.architecture),
     ("aggregatorNode", Wire.encode v.aggregator), ("workerNodes", Wire.encode v.workers),
     ("hyperparameters", Wire.encode v.hyperparameters), ("epochs", Wire.encode v.epochs)]
  decode j := do
    let id ← j.field "taskId"
    let dataset ← j.field "datasetId"
    let architecture ← j.field "modelArchitecture"
    let aggregator ← j.fieldD "aggregatorNode" []
    let workers ← j.fieldD "workerNodes" []
    let hyperparameters ← j.fieldD "hyperparameters" .empty
    let epochs ← j.fieldD "epochs" 1
    return { id, dataset, architecture, aggregator, workers, hyperparameters, epochs }

structure TrainingStatus where
  id : Bytes := []
  currentEpoch : UInt32 := 0
  totalEpochs : UInt32 := 0
  activeWorkers : UInt32 := 0
  completedWorkers : UInt32 := 0
  loss : Single := ⟨0⟩
  accuracy : Single := ⟨0⟩
  secondsRemaining : UInt32 := 0
  deriving DecidableEq, Repr

instance : Wire TrainingStatus where
  encode v := .ofMembers
    [("taskId", Wire.encode v.id), ("currentEpoch", Wire.encode v.currentEpoch),
     ("totalEpochs", Wire.encode v.totalEpochs), ("activeWorkers", Wire.encode v.activeWorkers),
     ("completedWorkers", Wire.encode v.completedWorkers), ("currentLoss", Wire.encode v.loss),
     ("currentAccuracy", Wire.encode v.accuracy),
     ("estimatedTimeRemaining", Wire.encode v.secondsRemaining)]
  decode j := do
    let id ← j.field "taskId"
    let currentEpoch ← j.field "currentEpoch"
    let totalEpochs ← j.field "totalEpochs"
    let activeWorkers ← j.fieldD "activeWorkers" 0
    let completedWorkers ← j.fieldD "completedWorkers" 0
    let loss ← j.fieldD "currentLoss" ⟨0⟩
    let accuracy ← j.fieldD "currentAccuracy" ⟨0⟩
    let secondsRemaining ← j.fieldD "estimatedTimeRemaining" 0
    return { id, currentEpoch, totalEpochs, activeWorkers, completedWorkers, loss, accuracy,
             secondsRemaining }

structure GradientUpdate where
  task : Bytes := []
  worker : Bytes := []
  epoch : UInt32 := 0
  gradients : Bytes := []
  loss : Single := ⟨0⟩
  accuracy : Single := ⟨0⟩
  deriving DecidableEq, Repr

instance : Wire GradientUpdate where
  encode v := .ofMembers
    [("taskId", Wire.encode v.task), ("workerId", Wire.encode v.worker),
     ("epoch", Wire.encode v.epoch), ("gradients", Wire.blob v.gradients),
     ("loss", Wire.encode v.loss), ("accuracy", Wire.encode v.accuracy)]
  decode j := do
    let task ← j.field "taskId"
    let worker ← j.field "workerId"
    let epoch ← j.field "epoch"
    let gradients ← j.blob "gradients"
    let loss ← j.fieldD "loss" ⟨0⟩
    let accuracy ← j.fieldD "accuracy" ⟨0⟩
    return { task, worker, epoch, gradients, loss, accuracy }

structure ModelUpdate where
  version : UInt32 := 0
  parameters : Bytes := []
  aggregation : Bytes := []
  workers : UInt32 := 0
  loss : Single := ⟨0⟩
  accuracy : Single := ⟨0⟩
  deriving DecidableEq, Repr

instance : Wire ModelUpdate where
  encode v := .ofMembers
    [("modelVersion", Wire.encode v.version), ("parameters", Wire.blob v.parameters),
     ("aggregationMethod", Wire.encode v.aggregation), ("numWorkers", Wire.encode v.workers),
     ("globalLoss", Wire.encode v.loss), ("globalAccuracy", Wire.encode v.accuracy)]
  decode j := do
    let version ← j.field "modelVersion"
    let parameters ← j.blob "parameters"
    let aggregation ← j.fieldD "aggregationMethod" []
    let workers ← j.fieldD "numWorkers" 0
    let loss ← j.fieldD "globalLoss" ⟨0⟩
    let accuracy ← j.fieldD "globalAccuracy" ⟨0⟩
    return { version, parameters, aggregation, workers, loss, accuracy }

end Offload
