import Offload.Job.Manifest
import Offload.Proofs.Json.Wire

namespace Offload.Manifest

open Wire Json

variable (manifest : Manifest)

theorem required_toJson : required.find? (fun key => !manifest.toJson.has (utf8 key)) = none := by
  simp [required, toJson, has, get?_ofMembers, List.lookup_cons]

theorem metadataOf_toJson : metadataOf manifest.toJson = manifest.metadata := by
  simp [metadataOf, toJson, get?_ofMembers]

theorem sizes_of_ofJson {json : Json} {manifest : Manifest} (hread : ofJson json = .ok manifest) :
    manifest.program.length ≤ 1610612733 ∧ manifest.input.length ≤ 1610612733 := by
  have hmembers : readMembers json = .ok manifest := by
    unfold ofJson at hread
    split at hread
    · cases hread
    · split at hread
      · cases hread
      · exact hread
  simp only [readMembers, Failure.bind_eq_ok_iff] at hmembers
  obtain ⟨_, -, program, hprogram, input, hinput, _, -, _, -, _, -, _, -, _, -, _, -, _, -, _, -, hend⟩ :=
    hmembers
  cases hend
  exact ⟨length_le_of_blobD hprogram, length_le_of_blobD hinput⟩

variable {manifest : Manifest} (hprogram : manifest.program.length ≤ 1610612733)
  (hinput : manifest.input.length ≤ 1610612733)

include hprogram hinput

theorem readMembers_toJson : readMembers manifest.toJson = .ok manifest := by
  rw [readMembers, metadataOf_toJson]
  simp [toJson, List.lookup_cons, Base64.decode_text hprogram, Base64.decode_text hinput]

theorem ofJson_toJson : ofJson manifest.toJson = .ok manifest := by
  rw [ofJson, required_toJson, readMembers_toJson hprogram hinput]

end Offload.Manifest
