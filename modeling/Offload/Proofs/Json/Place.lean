import Offload.Json.Basic
import Offload.Proofs.Fields

namespace Offload.Json

/-- What stands at the end of a way of keys, each of them a member of what the ones before it lead to. -/
def at? : List Bytes → Json → Option Json
  | [], json => some json
  | key :: place, json => (json.get? key).bind (at? place)

theorem at?_singleton (key : Bytes) (json : Json) : at? [key] json = json.get? key := by
  rw [at?]
  cases json.get? key <;> rfl

/-- One of two places lies on the way to the other one. -/
def OnOneWay (place other : List Bytes) : Prop := place <+: other ∨ other <+: place

/-- An object after a change at a place: the given value is put there, over what there was, or, if none is
given, the member is taken away. Members on the way that are absent are added as objects; what is no object
has no members to change. -/
def change (value? : Option Json) : List Bytes → Json → Json
  | [key], object members =>
    match value? with
    | some value => object (Fields.insert key value members)
    | none => object (Fields.erase key members)
  | key :: place, object members =>
    object (Fields.insert key (change value? place ((Fields.get? key members).getD empty)) members)
  | _, json => json

theorem get?_change_self (value? : Option Json) (key next : Bytes) (place : List Bytes)
    (members : Fields Json) :
    (change value? (key :: next :: place) (object members)).get? key =
      some (change value? (next :: place) ((Fields.get? key members).getD empty)) :=
  Fields.get?_insert_self _ _ _

theorem get?_change_of_ne (value? : Option Json) {key name : Bytes} (hne : key ≠ name)
    (place : List Bytes) (members : Fields Json) :
    (change value? (key :: place) (object members)).get? name = (object members).get? name := by
  cases place with
  | cons next rest => exact Fields.get?_insert_of_ne hne _ _
  | nil =>
    cases value? with
    | some value => exact Fields.get?_insert_of_ne hne _ _
    | none => exact (Fields.get?_erase key name members).trans (if_neg hne)

/-- There are objects, or nothing yet, all the way to a place. -/
def Leads : List Bytes → Json → Prop
  | [], _ => False
  | [_], json => json.isObject = true
  | key :: place, json => json.isObject = true ∧ Leads place ((json.get? key).getD empty)

theorem at?_change_self (value? : Option Json) {place : List Bytes} {json : Json}
    (hleads : Leads place json) : at? place (change value? place json) = value? := by
  fun_induction Leads place json with
  | case1 => exact hleads.elim
  | case2 key json =>
    cases json with
    | object members =>
      cases value? with
      | some value => simp [at?, change, get?]
      | none => simp [at?, change, get?, Fields.get?_erase]
    | null | bool | int | float | string | array => cases hleads
  | case3 key place json hmore ih =>
    obtain ⟨hobject, hleads⟩ := hleads
    cases json with
    | object members =>
      cases place with
      | nil => exact (hmore rfl).elim
      | cons next place =>
        rw [at?, get?_change_self, Option.bind_some]
        exact ih hleads
    | null | bool | int | float | string | array => cases hobject

/-- A change is seen on its own way only. -/
theorem at?_change (value? : Option Json) {place other : List Bytes} (hways : ¬ OnOneWay place other)
    (json : Json) : at? other (change value? place json) = at? other json := by
  rw [OnOneWay, not_or] at hways
  induction place generalizing other json with
  | nil => exact (hways.1 List.nil_prefix).elim
  | cons key place ih =>
    cases other with
    | nil => exact (hways.2 List.nil_prefix).elim
    | cons name other =>
      cases json with
      | object members =>
        by_cases hkey : key = name
        · subst hkey
          simp only [List.prefix_cons_inj] at hways
          cases place with
          | nil => exact (hways.1 List.nil_prefix).elim
          | cons next place =>
            rw [at?, get?_change_self, Option.bind_some, ih hways, at?, get?]
            cases Fields.get? key members with
            | some member => rfl
            | none =>
              cases other with
              | nil => exact (hways.2 List.nil_prefix).elim
              | cons => rfl
        · rw [at?, get?_change_of_ne value? hkey, at?]
      | null | bool | int | float | string | array => cases place <;> rfl

end Offload.Json
