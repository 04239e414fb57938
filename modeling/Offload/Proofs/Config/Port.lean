import Offload.Config.Lookup
import Offload.Proofs.Json.Wire

namespace Offload.Config

/-- An integer as it is held in 64 bits. -/
inductive Word
  | signed (bits : Int64)
  | unsigned (bits : UInt64)

namespace Word

def value : Word → Int
  | signed bits => bits.toInt
  | unsigned bits => bits.toNat

/-- The word read with a sign, whatever it was held as. -/
def withSign : Word → Int64
  | signed bits => bits
  | unsigned bits => bits.toInt64

def withoutSign : Word → UInt64
  | signed bits => bits.toUInt64
  | unsigned bits => bits

/-- How a port is read from a word. -/
def readPort (key : Bytes) (word : Word) : Logged UInt16 :=
  if word.withSign < 0 then complain 0 "Key is not an unsigned integer: " key ""
  else if 65535 < word.withoutSign then
    complain 0 "Value for key '" key "' exceeds unsigned short limit"
  else ⟨word.withoutSign.toUInt16, []⟩

/-- Words without a sign from 2^63 on turn negative when they are read with one. -/
theorem toInt_toInt64 (bits : UInt64) :
    bits.toInt64.toInt = if bits.toNat < 2 ^ 63 then (bits.toNat : Int) else bits.toNat - 2 ^ 64 := by
  rw [← Int64.toInt_toBitVec, UInt64.toBitVec_toInt64, BitVec.toInt_eq_toNat_cond,
    UInt64.toNat_toBitVec]
  split <;> split <;> omega

theorem withSign_neg_iff (word : Word) :
    word.withSign < 0 ↔ word.value < 0 ∨ Int64.maxValue.toInt < word.value := by
  have hmax : Int64.maxValue.toInt = 9223372036854775807 := rfl
  rw [Int64.lt_iff_toInt_lt, Int64.toInt_zero, hmax]
  cases word with
  | signed bits =>
    have hlt := bits.toInt_lt
    simp only [withSign, value]
    omega
  | unsigned bits =>
    have hlt := bits.toNat_lt
    simp only [withSign, value, toInt_toInt64]
    split <;> omega

theorem toNat_withoutSign {word : Word} (hsign : ¬ word.withSign < 0) :
    (word.withoutSign.toNat : Int) = word.value := by
  cases word with
  | signed bits =>
    have hzero : 0 ≤ bits := Int64.not_lt.mp hsign
    have hvalue : 0 ≤ bits.toInt := by simpa [Int64.le_iff_toInt_le] using hzero
    rw [withoutSign, Int64.toNat_toUInt64_of_le hzero, value]
    exact Int.toNat_of_nonneg hvalue
  | unsigned bits => rfl

theorem ofInt_toNat_cut (bits : UInt64) : UInt16.ofInt bits.toNat = bits.toUInt16 := by
  rw [← UInt16.toNat_inj, UInt64.toNat_toUInt16, UInt16.ofInt, UInt16.toNat_ofNat']
  omega

theorem lookupPort_eq_readPort {json : Json} {key : Bytes} {word : Word}
    (hget : json.get? key = some (.int word.value)) : lookupPort json key = word.readPort key := by
  rw [lookupPort, hget, readPort]
  by_cases hsign : word.withSign < 0
  · rw [if_pos hsign]
    exact if_pos (word.withSign_neg_iff.mp hsign)
  · have hvalue := toNat_withoutSign hsign
    have hlarge : 65535 < word.withoutSign ↔ 65535 < word.value := by
      rw [UInt64.lt_iff_toNat_lt, ← hvalue]
      exact Int.ofNat_lt.symm
    rw [if_neg hsign]
    refine (if_neg (mt word.withSign_neg_iff.mpr hsign)).trans ?_
    by_cases hlimit : 65535 < word.withoutSign
    · rw [if_pos hlimit, if_pos (hlarge.mp hlimit)]
    · rw [if_neg hlimit, if_neg (mt hlarge.mpr hlimit), ← hvalue, ofInt_toNat_cut]

end Word

variable {json : Json} {key : Bytes} {port : UInt16}

/-- The value is an object, and the integer at the key is one that a port can be. -/
def HasPort (json : Json) (key : Bytes) (port : UInt16) : Prop :=
  ∃ members, json = .object members ∧ Fields.get? key members = some (.int port.toNat)

theorem hasPort_iff : HasPort json key port ↔ json.get? key = some (.int port.toNat) := by
  constructor
  · rintro ⟨members, rfl, hget⟩
    exact hget
  · intro hget
    cases json with
    | object members => exact ⟨members, rfl, hget⟩
    | null | bool | int | float | string | array => cases hget

/-- Nothing but one error was logged, which names the key, and the port is zero. -/
def Complains (found : Logged UInt16) (key : Bytes) : Prop :=
  ∃ text, found = ⟨0, [.error text]⟩ ∧ key <:+: text

theorem complain_complains (before : String) (key : Bytes) (after : String) :
    Complains (complain 0 before key after) key :=
  ⟨_, rfl, utf8 before, utf8 after, rfl⟩

theorem lookupPort_of_hasPort (hhas : HasPort json key port) : lookupPort json key = ⟨port, []⟩ := by
  have hlt := port.toNat_lt
  have hmax : Int64.maxValue.toInt = 9223372036854775807 := rfl
  rw [lookupPort, hasPort_iff.mp hhas]
  simp only
  rw [if_neg (by omega), if_neg (by omega), Wire.ofInt_toNat_uint16]

theorem lookupPort_complains (hnone : ∀ port, ¬ HasPort json key port) :
    Complains (lookupPort json key) key := by
  rw [lookupPort]
  cases hget : json.get? key with
  | none => exact complain_complains _ _ _
  | some found =>
    cases found with
    | int n =>
      simp only
      split
      · exact complain_complains _ _ _
      · split
        · exact complain_complains _ _ _
        · next hsign hlimit =>
          have hport : n = (UInt16.ofNat n.toNat).toNat := by
            rw [UInt16.toNat_ofNat_of_lt' (by change n.toNat < 65536; omega)]
            omega
          exact (hnone (UInt16.ofNat n.toNat) (hasPort_iff.mpr (hport ▸ hget))).elim
    | null | bool | float | string | array | object => exact complain_complains _ _ _

/-- A port is found, without a word in the log, just where an object has an integer between 0 and 65535 at
the key, and what is found is this integer. In all other cases the port is zero, and one error is logged:
where there is no object or nothing at the key, where what is there is no integer, a negative one or a
larger one. This is what comes of reading the integer's word with a sign, then without one, and of cutting
it to 16 bits, also where a word without a sign turns negative on this way. -/
theorem port_found_exactly (json : Json) (key : Bytes) :
    (∀ port, lookupPort json key = ⟨port, []⟩ ↔ HasPort json key port) ∧
      ((∀ port, ¬ HasPort json key port) → Complains (lookupPort json key) key) ∧
      ∀ word : Word, json.get? key = some (.int word.value) →
        lookupPort json key = word.readPort key := by
  refine ⟨fun port => ⟨fun hfound => ?_, lookupPort_of_hasPort⟩, lookupPort_complains,
    fun word => Word.lookupPort_eq_readPort⟩
  by_cases hhas : ∃ other, HasPort json key other
  · obtain ⟨other, hother⟩ := hhas
    rw [lookupPort_of_hasPort hother, Logged.mk.injEq] at hfound
    rwa [← hfound.1]
  · obtain ⟨text, hcomplaint, _⟩ := lookupPort_complains (not_exists.mp hhas)
    rw [hcomplaint, Logged.mk.injEq] at hfound
    cases hfound.2

def brim : Json :=
  .ofMembers [("most", .int 65535), ("more", .int 65536), ("wrapped", .int 18446744073709551615)]

/-- The largest word without a sign is -1 with one. -/
theorem port_found_exactly_brim :
    lookupPort brim (utf8 "most") = ⟨65535, []⟩ ∧
      (∀ port, ¬ HasPort brim (utf8 "more") port) ∧
      Complains (lookupPort brim (utf8 "more")) (utf8 "more") ∧
      (Word.unsigned 18446744073709551615).withSign = -1 ∧
      lookupPort brim (utf8 "wrapped") =
        (Word.unsigned 18446744073709551615).readPort (utf8 "wrapped") := by
  have hmost : HasPort brim (utf8 "most") 65535 := ⟨_, rfl, rfl⟩
  have hmore : ∀ port, ¬ HasPort brim (utf8 "more") port := by
    intro port hhas
    have hget : brim.get? (utf8 "more") = some (.int 65536) := rfl
    have hport : (65536 : Int) = port.toNat := by
      simpa using hget.symm.trans (hasPort_iff.mp hhas)
    have hlt := port.toNat_lt
    omega
  exact ⟨((port_found_exactly brim (utf8 "most")).1 65535).mpr hmost, hmore,
    (port_found_exactly brim (utf8 "more")).2.1 hmore, by decide,
    (port_found_exactly brim (utf8 "wrapped")).2.2 (.unsigned 18446744073709551615) rfl⟩

end Offload.Config
