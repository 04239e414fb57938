import Offload.Job.Manifest
import Offload.Proofs.Json.Shape

namespace Offload.Manifest

open Json Wire

variable {json : Json} {members : Fields Json} {manifest : Manifest} {failure : Failure}

def binary : List String := ["wasmModule", "inputData"]

/-- The shapes that the required members may have. -/
def forms : List (String × List Shape) :=
  [("jobId", [.string]), ("splitStrategy", [.string]), ("minChunkSize", [.number]),
   ("maxChunkSize", [.number]), ("verificationMode", [.string]), ("timeoutSecs", [.number, .boolean]),
   ("retryCount", [.number, .boolean]), ("priority", [.number, .boolean]),
   ("redundancy", [.number, .boolean])]

/-- The value has all required members in shapes that can be converted, and its binary parts can be
read where they are there. -/
structure Complete (json : Json) : Prop where
  required : ∀ form ∈ forms, ∃ member, json.get? (utf8 form.1) = some member ∧ member.shape ∈ form.2
  binary : ∀ key ∈ binary, ∀ member, json.get? (utf8 key) = some member →
    ∃ text data, member = .string text ∧ Base64.decode text = .ok data

end Offload.Manifest
