import Offload.Config.File
import Offload.Proofs.Config.Port
import Offload.Proofs.Json.Wire

namespace Offload

theorem Logged.pure_bind {α β : Type} (value : α) (next : α → Logged β) :
    (pure value >>= next : Logged β) = next value := rfl

namespace ChunkSizes

/-- A size read through 32 bits: the low half of it, with the highest bit of that in all higher ones. -/
def narrow (size : UInt64) : UInt64 := UInt64.ofInt (Int32.ofInt size.toNat).toInt

def Fits (size : UInt64) : Prop := size.toNat < 2 ^ 31 ∨ 2 ^ 64 - 2 ^ 31 ≤ size.toNat

theorem narrow_eq_self_iff {size : UInt64} : narrow size = size ↔ Fits size := by
  have hlt := size.toNat_lt
  have hmod := Int.bmod_def (size.toNat : Int) 4294967296
  rw [← UInt64.toNat_inj, narrow, Int32.toInt_ofInt, show Int32.size = 4294967296 from rfl,
    UInt64.ofInt, UInt64.toNat_ofNat', Fits]
  omega

def narrowed (sizes : ChunkSizes) : ChunkSizes :=
  ⟨narrow sizes.size, narrow sizes.least, narrow sizes.greatest⟩

theorem narrowed_eq_self_iff {sizes : ChunkSizes} :
    sizes.narrowed = sizes ↔ Fits sizes.size ∧ Fits sizes.least ∧ Fits sizes.greatest := by
  cases sizes
  simp only [narrowed, mk.injEq, narrow_eq_self_iff]

end ChunkSizes

namespace Config

open Wire Json

variable {json : Json} {key : String}

theorem optional_of_get? {α : Type} {lookup : Json → Bytes → Logged α} {found : Json}
    {value default : α} (hget : json.get? (utf8 key) = some found)
    (hlookup : lookup json (utf8 key) = pure value) : optional lookup json key default = pure value := by
  have hhas : json.has (utf8 key) = true := by
    rw [has, hget]
    rfl
  rw [optional, if_pos hhas, hlookup]

theorem optional_text {text default : Bytes} (hget : json.get? (utf8 key) = some (encode text)) :
    optional lookupText json key default = pure text := by
  apply optional_of_get? hget
  rw [lookupText, hget]
  rfl

theorem optional_int {number default : Int32} (hget : json.get? (utf8 key) = some (encode number)) :
    optional lookupInt json key default = pure number := by
  apply optional_of_get? hget
  rw [lookupInt, hget]
  exact congrArg pure number.ofInt_toInt

theorem optional_port {port default : UInt16} (hget : json.get? (utf8 key) = some (encode port)) :
    optional lookupPort json key default = pure port :=
  optional_of_get? hget (lookupPort_of_hasPort (hasPort_iff.mpr hget))

theorem optional_size {size default : UInt64} (hget : json.get? (utf8 key) = some (encode size)) :
    optional lookupSize json key default = pure (ChunkSizes.narrow size) := by
  apply optional_of_get? hget
  rw [lookupSize, lookupInt, hget]
  rfl

theorem group_of_get? {members : List (String × Json)}
    (hget : json.get? (utf8 key) = some (ofMembers members)) : group json key = ofMembers members := by
  rw [group, hget]
  rfl

def narrowed (config : Config) : Config := { config with chunk := config.chunk.narrowed }

theorem narrowed_eq_self_iff {config : Config} :
    config.narrowed = config ↔ ChunkSizes.Fits config.chunk.size ∧
      ChunkSizes.Fits config.chunk.least ∧ ChunkSizes.Fits config.chunk.greatest := by
  rw [← ChunkSizes.narrowed_eq_self_iff]
  constructor
  · exact congrArg Config.chunk
  · intro hsizes
    rw [narrowed, hsizes]

theorem readSettings_toJson (config : Config) : readSettings config.toJson = pure config.narrowed := by
  have hmember (key : String) : config.toJson.get? (utf8 key) = _ := get?_ofMembers _ key
  rw [readSettings, optional_text (hmember "host"), Logged.pure_bind,
    optional_port (hmember "port"), Logged.pure_bind, optional_text (hmember "log_level"),
    Logged.pure_bind, optional_text (hmember "log_file"), Logged.pure_bind,
    optional_int (hmember "connect_timeout_ms"), Logged.pure_bind,
    optional_int (hmember "join_timeout_ms"), Logged.pure_bind,
    optional_int (hmember "heartbeat_ms"), Logged.pure_bind]
  simp only [group_of_get? (hmember "timeouts"), group_of_get? (hmember "chunk")]
  rw [optional_int (get?_ofMembers _ "query_ms"), Logged.pure_bind,
    optional_int (get?_ofMembers _ "control_ms"), Logged.pure_bind,
    optional_int (get?_ofMembers _ "bulk_ms"), Logged.pure_bind,
    optional_int (get?_ofMembers _ "result_margin_ms"), Logged.pure_bind,
    optional_size (get?_ofMembers _ "chunk_size"), Logged.pure_bind,
    optional_size (get?_ofMembers _ "min_chunk_size"), Logged.pure_bind,
    optional_size (get?_ofMembers _ "max_chunk_size"), Logged.pure_bind]
  rfl

theorem ofJson_toJson {config : Config} (hhost : config.host ≠ []) (hport : config.port ≠ 0) :
    (ofJson config.toJson).run = ⟨.ok config.narrowed, []⟩ := by
  have hobject : config.toJson.isObject = true := rfl
  have hendpoint : ¬ (config.narrowed.host = [] ∨ config.narrowed.port = 0) := by
    rintro (hempty | hzero)
    · exact hhost hempty
    · exact hport hzero
  rw [ofJson, if_pos hobject, readSettings_toJson]
  change (if config.narrowed.host = [] ∨ config.narrowed.port = 0 then _ else _ : Attempt Config).run = _
  rw [if_neg hendpoint]
  rfl

theorem loadClient_toJson {config : Config} (hhost : config.host ≠ []) (hport : config.port ≠ 0)
    {path text rest : Bytes} (hread : Json.read text = .ok (config.toJson, rest)) :
    (loadClient path (some text)).run =
      ⟨.ok config.narrowed, [.info (utf8 "Configuration file loaded successfully: " ++ path)]⟩ := by
  have hload : load path (some text) = ⟨.ok config.toJson,
      [.info (utf8 "Configuration file loaded successfully: " ++ path)]⟩ := by
    rw [load, hread]
    rfl
  rw [loadClient, hload]
  change (⟨(ofJson config.toJson).run.value, _ ++ (ofJson config.toJson).run.entries⟩ : Logged _) = _
  rw [ofJson_toJson hhost hport]
  rfl

theorem dump_of_save {path text : Bytes} {json : Json}
    (hsave : (save path true json).run.value = .ok text) : json.dump (.indented 4) = .ok text := by
  cases hdump : json.dump (.indented 4) with
  | error fault =>
    rw [save, if_pos rfl, hdump] at hsave
    cases hsave
  | ok written =>
    rw [save, if_pos rfl, hdump] at hsave
    cases hsave
    rfl

/-- A configuration with an endpoint that was written is read without complaint, and every setting but
the sizes is what it was: all strings, the port and all times, however long or negative. A size is read
through 32 bits, so that the configuration is the same again just if its sizes fit. If texts are read as
what they were written from, a file that was saved gives what the value itself gives. -/
theorem written_config_read {config : Config} (hhost : config.host ≠ []) (hport : config.port ≠ 0) :
    (ofJson config.toJson).run = ⟨.ok config.narrowed, []⟩ ∧
      ((ofJson config.toJson).run = ⟨.ok config, []⟩ ↔ ChunkSizes.Fits config.chunk.size ∧
        ChunkSizes.Fits config.chunk.least ∧ ChunkSizes.Fits config.chunk.greatest) ∧
      ((∀ text, config.toJson.dump (.indented 4) = .ok text →
          ∃ rest, Json.read text = .ok (config.toJson, rest)) →
        ∀ path text, (save path true config.toJson).run.value = .ok text →
          (loadClient path (some text)).run = ⟨.ok config.narrowed,
            [.info (utf8 "Configuration file loaded successfully: " ++ path)]⟩) := by
  have hread := ofJson_toJson hhost hport
  refine ⟨hread, ?_, fun hparses path text hsave => ?_⟩
  · rw [← narrowed_eq_self_iff, hread]
    constructor
    · intro hsame
      have hvalue := congrArg Logged.value hsame
      exact Except.ok.inj hvalue
    · intro hsame
      rw [hsame]
  · obtain ⟨rest, hsaved⟩ := hparses text (dump_of_save hsave)
    exact loadClient_toJson hhost hport hsaved

/-- A configuration whose numbers are at the ends of their ranges. -/
def extreme : Config where
  host := utf8 "node"
  port := 65535
  connectTimeout := Int32.minValue
  heartbeat := Int32.maxValue
  timeouts := { query := -1, bulk := 0 }
  chunk := { size := 2147483647, least := 18446744073709551615, greatest := 0 }

set_option maxRecDepth 4000 in
theorem written_config_read_extreme :
    extreme.host ≠ [] ∧ extreme.port ≠ 0 ∧ (ofJson extreme.toJson).run = ⟨.ok extreme, []⟩ ∧
      ∃ text, (save (utf8 "c.json") true extreme.toJson).run.value = .ok text ∧
        (loadClient (utf8 "c.json") (some text)).run = ⟨.ok extreme,
          [.info (utf8 "Configuration file loaded successfully: " ++ utf8 "c.json")]⟩ := by
  have hhost : extreme.host ≠ [] := by decide
  have hport : extreme.port ≠ 0 := by decide
  have hsizes : extreme.narrowed = extreme := by decide
  obtain ⟨hread, _, hfile⟩ := written_config_read hhost hport
  rw [hsizes] at hread hfile
  obtain ⟨written, hdump, hparse⟩ : ∃ text, extreme.toJson.dump (.indented 4) = .ok text ∧
      Json.read text = .ok (extreme.toJson, []) := ⟨_, rfl, by with_unfolding_all rfl⟩
  have hparses : ∀ text, extreme.toJson.dump (.indented 4) = .ok text →
      ∃ rest, Json.read text = .ok (extreme.toJson, rest) := by
    intro text htext
    cases htext.symm.trans hdump
    exact ⟨[], hparse⟩
  exact ⟨hhost, hport, hread, _, rfl, hfile hparses (utf8 "c.json") _ rfl⟩

def vast : Config := { chunk := { greatest := 4294967296 } }

/-- Of such a size nothing is left once it was written and read, and nobody is told. -/
theorem vast_size_lost :
    vast.host ≠ [] ∧ vast.port ≠ 0 ∧
      (ofJson vast.toJson).run = ⟨.ok { vast with chunk := { greatest := 0 } }, []⟩ ∧
      (ofJson vast.toJson).run ≠ ⟨.ok vast, []⟩ := by
  have hhost : vast.host ≠ [] := by decide
  have hport : vast.port ≠ 0 := by decide
  have hread := ofJson_toJson hhost hport
  refine ⟨hhost, hport, hread, fun hsame => ?_⟩
  rw [hread] at hsame
  have hgreatest := congrArg (fun read => read.value.toOption.map (·.chunk.greatest)) hsame
  exact absurd hgreatest (by decide)

end Config

end Offload
