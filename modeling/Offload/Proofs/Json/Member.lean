import Offload.Json.Wire

namespace Offload

namespace Json

/-- The member holds the text, or it is absent and the text is empty. -/
def HasText (json : Json) (key : String) (text : Bytes) : Prop :=
  json.get? (utf8 key) = some (.string text) ∨ json.get? (utf8 key) = none ∧ text = []

theorem decode_text_eq_ok_iff {value : Json} {text : Bytes} :
    (Wire.decode value : Except Failure Bytes) = .ok text ↔ value = .string text := by
  cases value with
  | string value =>
    constructor
    · intro hdecode
      have hvalue : value = text := Except.ok.inj hdecode
      rw [hvalue]
    · intro hvalue
      cases hvalue
      rfl
  | null | bool | int | float | array | object =>
    constructor
    · intro hdecode
      cases hdecode
    · intro hvalue
      cases hvalue

theorem fieldD_text_eq_ok_iff {members : Fields Json} {key : String} {text : Bytes} :
    ((object members).fieldD key [] : Except Failure Bytes) = .ok text ↔
      (object members).HasText key text := by
  simp only [fieldD, member?, HasText, get?]
  cases Fields.get? (utf8 key) members with
  | none => simp [eq_comm]
  | some value => simp [decode_text_eq_ok_iff]

/-- The member is a number, of which the integer is taken modulo two to the sixty-fourth and a float is cut
before, or it is absent and the number is zero. -/
inductive HasNumber (json : Json) (key : String) : UInt64 → Prop
  | absent (hmember : json.get? (utf8 key) = none) : HasNumber json key 0
  | int (n : Int) (hmember : json.get? (utf8 key) = some (.int n)) : HasNumber json key (.ofInt n)
  | float (x : Number.Double) (hmember : json.get? (utf8 key) = some (.float x)) :
    HasNumber json key (.ofInt x.truncate)

/-- An optional number of an object is read where it is a number, and is zero where it is absent. -/
theorem fieldD_number_eq_ok_iff {members : Fields Json} {key : String} {n : UInt64} :
    ((object members).fieldD key 0 : Except Failure UInt64) = .ok n ↔
      (object members).HasNumber key n := by
  constructor
  · intro hfield
    unfold fieldD member? at hfield
    simp only at hfield
    cases hmember : Fields.get? (utf8 key) members with
    | none =>
      rw [hmember] at hfield
      cases hfield
      exact .absent hmember
    | some value =>
      rw [hmember] at hfield
      cases value with
      | int n =>
        cases hfield
        exact .int n hmember
      | float x =>
        cases hfield
        exact .float x hmember
      | null | bool _ | string _ | array _ | object _ => cases hfield
  · intro hnumber
    unfold fieldD member?
    cases hnumber with
    | absent hmember =>
      simp only [get?] at hmember
      simp only [hmember]
    | int _ hmember | float _ hmember =>
      simp only [get?] at hmember
      simp only [hmember]
      rfl

end Json

end Offload
