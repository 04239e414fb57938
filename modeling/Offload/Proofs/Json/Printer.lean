import Offload.Json.Printer
import Offload.Proofs.Json.Utf8

namespace Offload.Json

mutual

/-- The texts in a value in the order of writing, keys included. -/
def texts : Json → List Bytes
  | string text => [text]
  | array items => itemsTexts items
  | object members => membersTexts members
  | null | bool _ | int _ | float _ => []

def itemsTexts : List Json → List Bytes
  | [] => []
  | item :: items => item.texts ++ itemsTexts items

def membersTexts : List (Bytes × Json) → List Bytes
  | [] => []
  | (key, value) :: members => key :: (value.texts ++ membersTexts members)

end

mutual

theorem textFault?_eq (json : Json) : json.textFault? = json.texts.findSome? Utf8.fault? := by
  cases json with
  | null | bool | int | float => rfl
  | string text =>
    rw [textFault?, texts, List.findSome?_cons, List.findSome?_nil]
    cases Utf8.fault? text <;> rfl
  | array items => exact itemsFault?_eq items
  | object members => exact membersFault?_eq members

theorem itemsFault?_eq (items : List Json) :
    itemsFault? items = (itemsTexts items).findSome? Utf8.fault? := by
  cases items with
  | nil => rfl
  | cons item items =>
    rw [itemsFault?, itemsTexts, List.findSome?_append, textFault?_eq item, itemsFault?_eq items]

theorem membersFault?_eq (members : List (Bytes × Json)) :
    membersFault? members = (membersTexts members).findSome? Utf8.fault? := by
  cases members with
  | nil => rfl
  | cons member members =>
    rw [membersFault?, membersTexts, List.findSome?_cons, List.findSome?_append,
      textFault?_eq member.2, membersFault?_eq members]
    cases Utf8.fault? member.1 <;> rfl

end

/-- Every text in the value encodes a string. -/
def WellEncoded (json : Json) : Prop := ∀ text ∈ json.texts, ∃ s, text = utf8 s

theorem textFault?_eq_none_iff {json : Json} : json.textFault? = none ↔ json.WellEncoded := by
  rw [textFault?_eq, List.findSome?_eq_none_iff]
  refine forall₂_congr fun text _ => ?_
  rw [← Utf8.isValid_iff, Utf8.isValid, Option.isNone_iff_eq_none]

instance (json : Json) : Decidable json.WellEncoded := decidable_of_iff _ textFault?_eq_none_iff

theorem exists_dump_iff {layout : Layout} {json : Json} :
    (∃ text, json.dump layout = .ok text) ↔ json.WellEncoded := by
  rw [← textFault?_eq_none_iff, dump]
  cases json.textFault? <;> simp

end Offload.Json
