import Offload.Config.Basic
import Offload.Proofs.Json.Place

namespace Offload.Config

open Json

/-- The kinds of settings, by how their values are read. -/
inductive Kind
  | text
  | port
  | number
  | size

namespace Kind

def Value : Kind → Type
  | text => Bytes
  | port => UInt16
  | number => Int32
  | size => UInt64

/-- What a setting is whose value is not of its kind. -/
def zero : (kind : Kind) → kind.Value
  | text => ([] : Bytes)
  | port => (0 : UInt16)
  | number => (0 : Int32)
  | size => (0 : UInt64)

/-- What a value of the kind says. Of an integer, a number keeps 32 bits with their sign, a size keeps as
many, and a port takes it only between 0 and 65535. -/
def taken? : (kind : Kind) → Json → Option kind.Value
  | text, .string written => some written
  | port, .int n => if 0 ≤ n ∧ n ≤ 65535 then some (UInt16.ofInt n) else none
  | number, .int n => some (Int32.ofInt n)
  | size, .int n => some (UInt64.ofInt (Int32.ofInt n).toInt)
  | _, _ => none

/-- What stands at the place of a setting, read as its kind. Where nothing stands it keeps its default. -/
def reading (kind : Kind) (default : kind.Value) : Option Json → kind.Value
  | none => default
  | some value => (kind.taken? value).getD kind.zero

end Kind

/-- The settings of a configuration, one for each value in it. -/
inductive Setting
  | host | port | logLevel | logFile | connectTimeout | joinTimeout | heartbeat
  | query | control | bulk | resultMargin
  | size | least | greatest

namespace Setting

def kind : Setting → Kind
  | host | logLevel | logFile => .text
  | port => .port
  | connectTimeout | joinTimeout | heartbeat | query | control | bulk | resultMargin => .number
  | size | least | greatest => .size

/-- The keys on the way to a setting: those of two groups stand in a member of their own. -/
def keys : Setting → List String
  | host => ["host"]
  | port => ["port"]
  | logLevel => ["log_level"]
  | logFile => ["log_file"]
  | connectTimeout => ["connect_timeout_ms"]
  | joinTimeout => ["join_timeout_ms"]
  | heartbeat => ["heartbeat_ms"]
  | query => ["timeouts", "query_ms"]
  | control => ["timeouts", "control_ms"]
  | bulk => ["timeouts", "bulk_ms"]
  | resultMargin => ["timeouts", "result_margin_ms"]
  | size => ["chunk", "chunk_size"]
  | least => ["chunk", "min_chunk_size"]
  | greatest => ["chunk", "max_chunk_size"]

def place (setting : Setting) : List Bytes := setting.keys.map utf8

/-- The value of a setting in a configuration. -/
def of : (setting : Setting) → Config → setting.kind.Value
  | host, config => config.host
  | port, config => config.port
  | logLevel, config => config.logLevel
  | logFile, config => config.logFile
  | connectTimeout, config => config.connectTimeout
  | joinTimeout, config => config.joinTimeout
  | heartbeat, config => config.heartbeat
  | query, config => config.timeouts.query
  | control, config => config.timeouts.control
  | bulk, config => config.timeouts.bulk
  | resultMargin, config => config.timeouts.resultMargin
  | size, config => config.chunk.size
  | least, config => config.chunk.least
  | greatest, config => config.chunk.greatest

def reading (setting : Setting) (found : Option Json) : setting.kind.Value :=
  setting.kind.reading (setting.of {}) found

/-- No setting stands at the place of another one, or on the way to it. -/
theorem eq_of_onOneWay {setting other : Setting} (hways : OnOneWay setting.place other.place) :
    setting = other := by
  cases setting <;> cases other <;> simp [OnOneWay, place, keys, utf8_inj] at hways ⊢

end Setting

/-- How a setting of a kind is looked up. -/
def Kind.lookup : (kind : Kind) → Json → Bytes → Logged kind.Value
  | .text => lookupText
  | .port => lookupPort
  | .number => lookupInt
  | .size => lookupSize

/-- A look-up reads what it finds as its kind. -/
theorem Kind.lookup_value (kind : Kind) {json found : Json} {key : Bytes}
    (hget : json.get? key = some found) :
    (kind.lookup json key).value = (kind.taken? found).getD kind.zero := by
  cases kind with
  | text =>
    simp only [lookup, lookupText, hget]
    cases found <;> rfl
  | port =>
    have hmax : Int64.maxValue.toInt = 9223372036854775807 := rfl
    simp only [lookup, lookupPort, hget]
    cases found with
    | int n =>
      simp only [taken?]
      by_cases hport : 0 ≤ n ∧ n ≤ 65535
      · rw [if_neg (by omega), if_neg (by omega), if_pos hport]
        rfl
      · rw [if_neg hport]
        split
        · rfl
        · rw [if_pos (by omega)]
          rfl
    | null | bool | float | string | array | object => rfl
  | number =>
    simp only [lookup, lookupInt, hget]
    cases found <;> rfl
  | size =>
    rw [lookup, lookupSize, lookupInt, hget]
    cases found <;> rfl

variable {json : Json}

theorem optional_value (kind : Kind) (json : Json) (key : String) (default : kind.Value) :
    (optional kind.lookup json key default).value = kind.reading default (json.get? (utf8 key)) := by
  rw [optional, has]
  cases hget : json.get? (utf8 key) with
  | none => rfl
  | some found => exact kind.lookup_value hget

theorem get?_group (json : Json) (name key : String) :
    (group json name).get? (utf8 key) = at? [utf8 name, utf8 key] json := by
  rw [group, at?]
  cases json.get? (utf8 name) with
  | none => rfl
  | some found =>
    rw [Option.bind_some, at?_singleton]
    cases found <;> rfl

/-- Each setting is read from its own place. -/
theorem readSettings_of (json : Json) (setting : Setting) :
    setting.of (readSettings json).value = setting.reading (at? setting.place json) := by
  have hown (kind : Kind) (key : String) (default : kind.Value) :
      (optional kind.lookup json key default).value = kind.reading default (at? [utf8 key] json) := by
    rw [optional_value, at?_singleton]
  have hgrouped (kind : Kind) (name key : String) (default : kind.Value) :
      (optional kind.lookup (group json name) key default).value =
        kind.reading default (at? [utf8 name, utf8 key] json) := by
    rw [optional_value, get?_group]
  cases setting with
  | host | logLevel | logFile => exact hown .text _ _
  | port => exact hown .port _ _
  | connectTimeout | joinTimeout | heartbeat => exact hown .number _ _
  | query | control | bulk | resultMargin => exact hgrouped .number _ _ _
  | size | least | greatest => exact hgrouped .size _ _ _

/-- What a value gives: one configuration, of which each setting is read from its own place, and which is
refused, as a wrong argument, just if it has no endpoint. What is no object gives the default one. -/
structure Gives (json : Json) (config : Config) : Prop where
  settings : ∀ setting : Setting, setting.of config = setting.reading (at? setting.place json)
  default_of_plain : json.isObject = false → (ofJson json).run.value = .ok {}
  taken_iff : (ofJson json).run.value = .ok config ↔ config.host ≠ [] ∧ config.port ≠ 0
  refused_iff : (∃ failure, (ofJson json).run.value = .error failure) ↔
    config.host = [] ∨ config.port = 0
  refused_kind : ∀ failure, (ofJson json).run.value = .error failure → failure.kind = .argument

/-- The endpoint is looked at last. -/
theorem ofJson_value (hobject : json.isObject = true) :
    (ofJson json).run.value =
      if (readSettings json).value.host = [] ∨ (readSettings json).value.port = 0 then
        .error .noEndpoint
      else .ok (readSettings json).value := by
  rw [ofJson, if_pos hobject]
  change (if (readSettings json).value.host = [] ∨ (readSettings json).value.port = 0 then _ else _ :
    Attempt Config).run.value = _
  split <;> rfl

theorem Gives.of_value {config : Config}
    (hsettings : ∀ setting : Setting, setting.of config = setting.reading (at? setting.place json))
    (hplain : json.isObject = false → (ofJson json).run.value = .ok {})
    (hvalue : (ofJson json).run.value =
      if config.host = [] ∨ config.port = 0 then .error .noEndpoint else .ok config) :
    Gives json config := by
  by_cases hmissing : config.host = [] ∨ config.port = 0
  · rw [if_pos hmissing] at hvalue
    refine ⟨hsettings, hplain, ?_, ?_, ?_⟩
    · rw [hvalue, ← not_or]
      exact ⟨nofun, fun hendpoint => (hendpoint hmissing).elim⟩
    · rw [hvalue]
      exact ⟨fun _ => hmissing, fun _ => ⟨_, rfl⟩⟩
    · intro failure hfailure
      cases hvalue.symm.trans hfailure
      rfl
  · rw [if_neg hmissing] at hvalue
    refine ⟨hsettings, hplain, ?_, ?_, ?_⟩
    · rw [hvalue, ← not_or]
      exact ⟨fun _ => hmissing, fun _ => rfl⟩
    · rw [hvalue]
      exact ⟨nofun, fun hendpoint => (hmissing hendpoint).elim⟩
    · intro failure hfailure
      cases hvalue.symm.trans hfailure

theorem at?_of_plain (hplain : json.isObject = false) (setting : Setting) :
    at? setting.place json = none := by
  cases json with
  | object members => cases hplain
  | null | bool | int | float | string | array => cases setting <;> rfl

theorem exists_gives (json : Json) : ∃ config, Gives json config := by
  cases hobject : json.isObject with
  | true =>
    refine ⟨(readSettings json).value, .of_value (readSettings_of json) ?_ (ofJson_value hobject)⟩
    intro hplain
    cases hplain.symm.trans hobject
  | false =>
    have hvalue : (ofJson json).run.value = .ok {} := by
      rw [ofJson, if_neg (by simp [hobject])]
      rfl
    refine ⟨{}, .of_value (fun setting => ?_) (fun _ => hvalue) ?_⟩
    · rw [at?_of_plain hobject]
      rfl
    · rw [hvalue, if_neg (by decide)]

/-- Two values differ at most along one way: wherever it does not lead, the same stands in both. -/
def DifferAlong (place : List Bytes) (json other : Json) : Prop :=
  ∀ elsewhere, ¬ OnOneWay place elsewhere → at? elsewhere other = at? elsewhere json

theorem change_differAlong (value? : Option Json) (place : List Bytes) (json : Json) :
    DifferAlong place json (change value? place json) :=
  fun _ helsewhere => at?_change value? helsewhere json

/-- Settings are independent. Every value gives one configuration, of which each setting is read from what
stands at its own place alone. So it is the same in what another value gives that has the same there, and
where two values differ along one way only, all settings are the same that do not stand on it. A change at
the place of a setting therefore reaches this one and no other. -/
theorem settings_independent (json : Json) :
    ∃ config, Gives json config ∧ ∀ other changed, Gives other changed →
      (∀ setting : Setting, at? setting.place other = at? setting.place json →
        setting.of changed = setting.of config) ∧
      (∀ place, DifferAlong place json other → ∀ setting : Setting,
        ¬ OnOneWay place setting.place → setting.of changed = setting.of config) ∧
      ∀ (value? : Option Json) (setting : Setting), other = change value? setting.place json →
        (Leads setting.place json → setting.of changed = setting.reading value?) ∧
        ∀ another ≠ setting, another.of changed = another.of config := by
  obtain ⟨config, hgives⟩ := exists_gives json
  refine ⟨config, hgives, fun other changed hchanged => ?_⟩
  have hsame (setting : Setting) (hat : at? setting.place other = at? setting.place json) :
      setting.of changed = setting.of config := by
    rw [hgives.settings, hchanged.settings, hat]
  have halong (place : List Bytes) (hdiffer : DifferAlong place json other) (setting : Setting)
      (hways : ¬ OnOneWay place setting.place) : setting.of changed = setting.of config :=
    hsame setting (hdiffer setting.place hways)
  refine ⟨hsame, halong, ?_⟩
  rintro value? setting rfl
  refine ⟨fun hleads => ?_, fun another hanother => ?_⟩
  · rw [hchanged.settings, at?_change_self value? hleads]
  · refine halong setting.place (change_differAlong value? setting.place json) another fun hways => ?_
    exact hanother (Setting.eq_of_onOneWay hways).symm

end Offload.Config
