import Offload.Proofs.Base64.Accepted
import Offload.Proofs.Json.Member

namespace Offload

namespace Wire

/-- The conversion to a type takes the values of the given shapes, and refuses all others as JSON. -/
structure Takes (α : Type) [Wire α] (shapes : List Json.Shape) : Prop where
  taken : ∀ json : Json, json.shape ∈ shapes → ∃ value : α, decode json = .ok value
  refused : ∀ json : Json, json.shape ∉ shapes → ∃ fault, decode (α := α) json = .error (.json fault)

variable {α : Type} [Wire α] {shapes : List Json.Shape}

theorem Takes.fails (htakes : Takes α shapes) {json : Json} {failure : Failure}
    (hdecode : decode (α := α) json = .error failure) : ∃ fault, failure = .json fault := by
  by_cases hshape : json.shape ∈ shapes
  · obtain ⟨value, hvalue⟩ := htakes.taken json hshape
    cases hvalue.symm.trans hdecode
  · obtain ⟨fault, hfault⟩ := htakes.refused json hshape
    cases hfault.symm.trans hdecode
    exact ⟨fault, rfl⟩

end Wire

namespace Json

section Members

variable {α : Type} [Wire α] {json : Json} {key : String}

/-- The value has the member, and this is read as the given value of its type. -/
def Holds (json : Json) (key : String) (value : α) : Prop :=
  ∃ member, json.get? (utf8 key) = some member ∧ Wire.decode member = .ok value

theorem field_of_get? {member : Json} (hget : json.get? (utf8 key) = some member) :
    json.field (α := α) key = Wire.decode member := by
  cases json with
  | object members =>
    simp only [get?] at hget
    simp only [field, Json.member, hget]
  | null | bool | int | float | string | array => cases hget

theorem field_of_absent (habsent : json.get? (utf8 key) = none) :
    ∃ fault, json.field (α := α) key = .error (.json fault) := by
  cases json with
  | object members =>
    simp only [get?] at habsent
    exact ⟨.missingKey (utf8 key), by simp only [field, Json.member, habsent]⟩
  | null | bool | int | float | string | array => exact ⟨_, rfl⟩

theorem field_eq_ok_iff {value : α} : json.field key = .ok value ↔ json.Holds key value := by
  cases hget : json.get? (utf8 key) with
  | none =>
    obtain ⟨fault, hfault⟩ := field_of_absent (α := α) hget
    simp [Holds, hget, hfault]
  | some member => simp [Holds, hget, field_of_get? hget]

end Members

variable {members : Fields Json} {key : String}

/-- The member holds the bytes as base64, or it is absent and there are none. -/
def HoldsBlob (json : Json) (key : String) (data : Bytes) : Prop :=
  ∃ text, json.HasText key text ∧ Base64.decode text = .ok data

theorem blobD_eq_ok_iff {data : Bytes} :
    (object members).blobD key = .ok data ↔ (object members).HoldsBlob key data := by
  rw [blobD, Failure.bind_eq_ok_iff]
  simp only [fieldD_text_eq_ok_iff, HoldsBlob]

end Json

end Offload
