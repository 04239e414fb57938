import Offload.Json.Utf8

namespace Offload.Json.Utf8

theorem faultFrom_eq_none_iff {state : State} {index : Nat} {last : UInt8} {text : Bytes} :
    faultFrom state index last text = none ↔ text.foldlM step state = some none := by
  induction text generalizing state index last with
  | nil => cases state <;> simp [faultFrom]
  | cons b rest ih =>
    rw [faultFrom, List.foldlM_cons]
    cases step state b with
    | none => simp
    | some next => exact ih

private theorem lead_eq (b : UInt8) :
    lead b =
      if b.toNat < 128 then some none
      else if 194 ≤ b.toNat ∧ b.toNat ≤ 223 then some (some ⟨128, 191, 0⟩)
      else if b.toNat = 224 then some (some ⟨160, 191, 1⟩)
      else if b.toNat = 237 then some (some ⟨128, 159, 1⟩)
      else if 225 ≤ b.toNat ∧ b.toNat ≤ 239 then some (some ⟨128, 191, 1⟩)
      else if b.toNat = 240 then some (some ⟨144, 191, 2⟩)
      else if 241 ≤ b.toNat ∧ b.toNat ≤ 243 then some (some ⟨128, 191, 2⟩)
      else if b.toNat = 244 then some (some ⟨128, 143, 2⟩)
      else none := by
  simp only [lead, UInt8.lt_iff_toNat_lt, UInt8.le_iff_toNat_le, ← UInt8.toNat_inj]
  rfl

theorem lead_one {b : UInt8} (hb : b.toNat < 128) : lead b = some none := by
  rw [lead_eq, if_pos hb]

theorem lead_two {b : UInt8} (hb : 194 ≤ b.toNat ∧ b.toNat ≤ 223) :
    lead b = some (some ⟨128, 191, 0⟩) := by
  rw [lead_eq, if_neg (by omega), if_pos hb]

/-- The second of three bytes keeps out long forms of what two bytes encode, and surrogates. -/
theorem lead_three {b : UInt8} (hb : 224 ≤ b.toNat ∧ b.toNat ≤ 239) :
    ∃ low high : UInt8, lead b = some (some ⟨low, high, 1⟩) ∧
      low.toNat = (if b.toNat = 224 then 160 else 128) ∧
      high.toNat = (if b.toNat = 237 then 159 else 191) := by
  rw [lead_eq, if_neg (by omega), if_neg (by omega)]
  by_cases hlow : b.toNat = 224
  · exact ⟨160, 191, by rw [if_pos hlow], by rw [if_pos hlow]; rfl, by rw [if_neg (by omega)]; rfl⟩
  by_cases hhigh : b.toNat = 237
  · exact ⟨128, 159, by rw [if_neg hlow, if_pos hhigh], by rw [if_neg hlow]; rfl,
      by rw [if_pos hhigh]; rfl⟩
  · exact ⟨128, 191, by rw [if_neg hlow, if_neg hhigh, if_pos (by omega)], by rw [if_neg hlow]; rfl,
      by rw [if_neg hhigh]; rfl⟩

/-- The second of four bytes keeps out long forms of what three bytes encode, and what is beyond the last
character. -/
theorem lead_four {b : UInt8} (hb : 240 ≤ b.toNat ∧ b.toNat ≤ 244) :
    ∃ low high : UInt8, lead b = some (some ⟨low, high, 2⟩) ∧
      low.toNat = (if b.toNat = 240 then 144 else 128) ∧
      high.toNat = (if b.toNat = 244 then 143 else 191) := by
  rw [lead_eq, if_neg (by omega), if_neg (by omega), if_neg (by omega), if_neg (by omega),
    if_neg (by omega)]
  by_cases hlow : b.toNat = 240
  · exact ⟨144, 191, by rw [if_pos hlow], by rw [if_pos hlow]; rfl, by rw [if_neg (by omega)]; rfl⟩
  by_cases hhigh : b.toNat = 244
  · exact ⟨128, 143, by rw [if_neg hlow, if_neg (by omega), if_pos hhigh], by rw [if_neg hlow]; rfl,
      by rw [if_pos hhigh]; rfl⟩
  · exact ⟨128, 191, by rw [if_neg hlow, if_pos (by omega)], by rw [if_neg hlow]; rfl,
      by rw [if_neg hhigh]; rfl⟩

theorem lead_range {b : UInt8} {state : State} (hlead : lead b = some state) :
    b.toNat < 128 ∨ (194 ≤ b.toNat ∧ b.toNat ≤ 223) ∨ (224 ≤ b.toNat ∧ b.toNat ≤ 239) ∨
      (240 ≤ b.toNat ∧ b.toNat ≤ 244) := by
  refine Decidable.byContradiction fun hnone => ?_
  rw [lead_eq, if_neg (by omega), if_neg (by omega), if_neg (by omega), if_neg (by omega),
    if_neg (by omega), if_neg (by omega), if_neg (by omega), if_neg (by omega)] at hlead
  cases hlead

def continued : Nat → State
  | 0 => none
  | more + 1 => some ⟨128, 191, more⟩

theorem step_pending {low high b : UInt8} {more : Nat} (hlow : low.toNat ≤ b.toNat)
    (hhigh : b.toNat ≤ high.toNat) : step (some ⟨low, high, more⟩) b = some (continued more) := by
  simp only [step, UInt8.le_iff_toNat_le]
  rw [if_pos ⟨hlow, hhigh⟩]
  cases more <;> rfl

theorem exists_of_pending {low high : UInt8} {more : Nat} {text : Bytes}
    (haccepted : text.foldlM step (some ⟨low, high, more⟩) = some none) :
    ∃ b rest, text = b :: rest ∧ low.toNat ≤ b.toNat ∧ b.toNat ≤ high.toNat ∧
      rest.foldlM step (continued more) = some none := by
  cases text with
  | nil => cases haccepted
  | cons b rest =>
    rw [List.foldlM_cons] at haccepted
    by_cases hrange : low.toNat ≤ b.toNat ∧ b.toNat ≤ high.toNat
    · rw [step_pending hrange.1 hrange.2] at haccepted
      exact ⟨b, rest, rfl, hrange.1, hrange.2, haccepted⟩
    · simp only [step, UInt8.le_iff_toNat_le] at haccepted
      rw [if_neg hrange] at haccepted
      cases haccepted

private theorem toNat_byte {n : Nat} (hn : n < 256) : (UInt8.ofNat n).toNat = n :=
  UInt8.toNat_ofNat_of_lt' hn

private theorem step_full {n : Nat} (hn : n < 64) (more : Nat) :
    step (continued (more + 1)) (UInt8.ofNat (n + 128)) = some (continued more) := by
  have hbyte := toNat_byte (show n + 128 < 256 by omega)
  exact step_pending (show 128 ≤ _ by omega) (show _ ≤ 191 by omega)

/-- Each encoded character is read to its end. -/
theorem read_char (c : Char) : (String.utf8EncodeChar c).foldlM step none = some none := by
  have hvalid : c.val.toNat < 55296 ∨ 57343 < c.val.toNat ∧ c.val.toNat < 1114112 := c.valid
  unfold String.utf8EncodeChar
  generalize c.val.toNat = v at hvalid
  simp only
  split
  · have hfirst := toNat_byte (show v < 256 by omega)
    rw [List.foldlM_cons, step, lead_one (by omega)]
    rfl
  have hlast : step (continued 1) (UInt8.ofNat (v % 64 + 128)) = some none :=
    step_full (Nat.mod_lt _ (by decide)) 0
  split
  · have hfirst := toNat_byte (show v / 64 % 32 + 192 < 256 by omega)
    rw [List.foldlM_cons, step, lead_two (by omega)]
    change List.foldlM step (continued 1) _ = _
    rw [List.foldlM_cons, hlast]
    rfl
  split
  · have hfirst := toNat_byte (show v / 4096 % 16 + 224 < 256 by omega)
    have hsecond := toNat_byte (show v / 64 % 64 + 128 < 256 by omega)
    obtain ⟨low, high, hlead, hlow, hhigh⟩ :=
      @lead_three (UInt8.ofNat (v / 4096 % 16 + 224)) (by omega)
    rw [List.foldlM_cons, step, hlead]
    change List.foldlM step (some ⟨low, high, 1⟩) _ = _
    rw [List.foldlM_cons, step_pending (by split at hlow <;> omega) (by split at hhigh <;> omega)]
    change List.foldlM step (continued 1) _ = _
    rw [List.foldlM_cons, hlast]
    rfl
  · have hfirst := toNat_byte (show v / 262144 % 8 + 240 < 256 by omega)
    have hsecond := toNat_byte (show v / 4096 % 64 + 128 < 256 by omega)
    have hthird : step (continued 2) (UInt8.ofNat (v / 64 % 64 + 128)) = some (continued 1) :=
      step_full (Nat.mod_lt _ (by decide)) 1
    obtain ⟨low, high, hlead, hlow, hhigh⟩ :=
      @lead_four (UInt8.ofNat (v / 262144 % 8 + 240)) (by omega)
    rw [List.foldlM_cons, step, hlead]
    change List.foldlM step (some ⟨low, high, 2⟩) _ = _
    rw [List.foldlM_cons, step_pending (by split at hlow <;> omega) (by split at hhigh <;> omega)]
    change List.foldlM step (continued 2) _ = _
    rw [List.foldlM_cons, hthird]
    change List.foldlM step (continued 1) _ = _
    rw [List.foldlM_cons, hlast]
    rfl

private theorem exists_code {v : Nat} (hvalid : v < 55296 ∨ 57343 < v ∧ v < 1114112) :
    ∃ c : Char, c.val.toNat = v := by
  have hsmall : v < 4294967296 := by omega
  refine ⟨⟨UInt32.ofNat v, ?_⟩, UInt32.toNat_ofNat_of_lt' hsmall⟩
  rw [UInt32.isValidChar, UInt32.toNat_ofNat_of_lt' hsmall]
  exact hvalid

private theorem byte_eq {b : UInt8} {n : Nat} (hn : b.toNat = n) : b = UInt8.ofNat n := by
  rw [← hn]
  exact UInt8.ofNat_toNat.symm

theorem exists_char_one {b : UInt8} (hb : b.toNat < 128) : ∃ c, String.utf8EncodeChar c = [b] := by
  obtain ⟨c, hc⟩ := @exists_code b.toNat (by omega)
  refine ⟨c, ?_⟩
  rw [String.utf8EncodeChar]
  simp only [hc]
  rw [if_pos (by omega), UInt8.ofNat_toNat]

theorem exists_char_two {b b₁ : UInt8} (hb : 194 ≤ b.toNat ∧ b.toNat ≤ 223)
    (hb₁ : 128 ≤ b₁.toNat ∧ b₁.toNat ≤ 191) : ∃ c, String.utf8EncodeChar c = [b, b₁] := by
  obtain ⟨c, hc⟩ := @exists_code ((b.toNat - 192) * 64 + (b₁.toNat - 128)) (by omega)
  refine ⟨c, ?_⟩
  rw [String.utf8EncodeChar]
  simp only [hc]
  rw [if_neg (by omega), if_pos (by omega), ← byte_eq (b := b) (by omega),
    ← byte_eq (b := b₁) (by omega)]

theorem exists_char_three {b b₁ b₂ : UInt8} (hb : 224 ≤ b.toNat ∧ b.toNat ≤ 239)
    (hb₁ : 128 ≤ b₁.toNat ∧ b₁.toNat ≤ 191) (hb₂ : 128 ≤ b₂.toNat ∧ b₂.toNat ≤ 191)
    (hlong : b.toNat = 224 → 160 ≤ b₁.toNat) (hsurrogate : b.toNat = 237 → b₁.toNat ≤ 159) :
    ∃ c, String.utf8EncodeChar c = [b, b₁, b₂] := by
  obtain ⟨c, hc⟩ := @exists_code
    ((b.toNat - 224) * 4096 + (b₁.toNat - 128) * 64 + (b₂.toNat - 128)) (by omega)
  refine ⟨c, ?_⟩
  rw [String.utf8EncodeChar]
  simp only [hc]
  rw [if_neg (by omega), if_neg (by omega), if_pos (by omega), ← byte_eq (b := b) (by omega),
    ← byte_eq (b := b₁) (by omega), ← byte_eq (b := b₂) (by omega)]

theorem exists_char_four {b b₁ b₂ b₃ : UInt8} (hb : 240 ≤ b.toNat ∧ b.toNat ≤ 244)
    (hb₁ : 128 ≤ b₁.toNat ∧ b₁.toNat ≤ 191) (hb₂ : 128 ≤ b₂.toNat ∧ b₂.toNat ≤ 191)
    (hb₃ : 128 ≤ b₃.toNat ∧ b₃.toNat ≤ 191) (hlong : b.toNat = 240 → 144 ≤ b₁.toNat)
    (hbeyond : b.toNat = 244 → b₁.toNat ≤ 143) : ∃ c, String.utf8EncodeChar c = [b, b₁, b₂, b₃] := by
  obtain ⟨c, hc⟩ := @exists_code ((b.toNat - 240) * 262144 + (b₁.toNat - 128) * 4096 +
    (b₂.toNat - 128) * 64 + (b₃.toNat - 128)) (by omega)
  refine ⟨c, ?_⟩
  rw [String.utf8EncodeChar]
  simp only [hc]
  rw [if_neg (by omega), if_neg (by omega), if_neg (by omega), ← byte_eq (b := b) (by omega),
    ← byte_eq (b := b₁) (by omega), ← byte_eq (b := b₂) (by omega), ← byte_eq (b := b₃) (by omega)]

/-- An accepted text begins with an encoded character, and goes on with an accepted text. -/
theorem exists_char {text : Bytes} (haccepted : text.foldlM step none = some none) (hne : text ≠ []) :
    ∃ c rest, text = String.utf8EncodeChar c ++ rest ∧ rest.foldlM step none = some none := by
  obtain ⟨b, text, rfl⟩ := List.exists_cons_of_ne_nil hne
  rw [List.foldlM_cons] at haccepted
  obtain ⟨state, hlead, haccepted⟩ := Option.bind_eq_some_iff.mp haccepted
  have hlead : lead b = some state := hlead
  rcases lead_range hlead with hb | hb | hb | hb
  · cases (lead_one hb).symm.trans hlead
    obtain ⟨c, hc⟩ := exists_char_one hb
    exact ⟨c, text, by rw [hc]; rfl, haccepted⟩
  · cases (lead_two hb).symm.trans hlead
    obtain ⟨b₁, text, rfl, hlow, hhigh, haccepted⟩ := exists_of_pending haccepted
    obtain ⟨c, hc⟩ := exists_char_two hb ⟨hlow, hhigh⟩
    exact ⟨c, text, by rw [hc]; rfl, haccepted⟩
  · obtain ⟨low, high, hthree, hlowest, hhighest⟩ := lead_three hb
    cases hthree.symm.trans hlead
    obtain ⟨b₁, text, rfl, hlow, hhigh, haccepted⟩ := exists_of_pending haccepted
    obtain ⟨b₂, text, rfl, hlow₂, hhigh₂, haccepted⟩ := exists_of_pending haccepted
    rw [hlowest] at hlow
    rw [hhighest] at hhigh
    have hfull : 128 ≤ b₁.toNat ∧ b₁.toNat ≤ 191 :=
      ⟨by split at hlow <;> omega, by split at hhigh <;> omega⟩
    obtain ⟨c, hc⟩ := exists_char_three hb hfull ⟨hlow₂, hhigh₂⟩
      (fun h => by rwa [if_pos h] at hlow) (fun h => by rwa [if_pos h] at hhigh)
    exact ⟨c, text, by rw [hc]; rfl, haccepted⟩
  · obtain ⟨low, high, hfour, hlowest, hhighest⟩ := lead_four hb
    cases hfour.symm.trans hlead
    obtain ⟨b₁, text, rfl, hlow, hhigh, haccepted⟩ := exists_of_pending haccepted
    obtain ⟨b₂, text, rfl, hlow₂, hhigh₂, haccepted⟩ := exists_of_pending haccepted
    obtain ⟨b₃, text, rfl, hlow₃, hhigh₃, haccepted⟩ := exists_of_pending haccepted
    rw [hlowest] at hlow
    rw [hhighest] at hhigh
    have hfull : 128 ≤ b₁.toNat ∧ b₁.toNat ≤ 191 :=
      ⟨by split at hlow <;> omega, by split at hhigh <;> omega⟩
    obtain ⟨c, hc⟩ := exists_char_four hb hfull ⟨hlow₂, hhigh₂⟩ ⟨hlow₃, hhigh₃⟩
      (fun h => by rwa [if_pos h] at hlow) (fun h => by rwa [if_pos h] at hhigh)
    exact ⟨c, text, by rw [hc]; rfl, haccepted⟩

theorem utf8_eq (s : String) : utf8 s = s.toList.flatMap String.utf8EncodeChar := by
  have hencode : s.toUTF8 = s.toList.utf8Encode := by
    rw [String.toUTF8_eq_toByteArray, String.utf8Encode_toList]
  rw [utf8, hencode, List.utf8Encode]
  exact List.toList_data_toByteArray

/-- A text is valid just if it encodes a string. -/
theorem isValid_iff {text : Bytes} : isValid text = true ↔ ∃ s, text = utf8 s := by
  rw [isValid, Option.isNone_iff_eq_none, fault?, faultFrom_eq_none_iff]
  constructor
  · intro haccepted
    suffices h : ∃ chars : List Char, text = chars.flatMap String.utf8EncodeChar by
      obtain ⟨chars, rfl⟩ := h
      exact ⟨String.ofList chars, by rw [utf8_eq, String.toList_ofList]⟩
    induction hlength : text.length using Nat.strongRecOn generalizing text with
    | _ length ih =>
      by_cases hne : text = []
      · exact ⟨[], hne⟩
      · obtain ⟨c, rest, rfl, hrest⟩ := exists_char haccepted hne
        have hshorter : rest.length < length := by
          have hpos := c.utf8Size_pos
          rw [← hlength, List.length_append, String.length_utf8EncodeChar]
          omega
        obtain ⟨chars, rfl⟩ := ih _ hshorter hrest rfl
        exact ⟨c :: chars, rfl⟩
  · rintro ⟨s, rfl⟩
    rw [utf8_eq]
    induction s.toList with
    | nil => rfl
    | cons c rest ih =>
      rw [List.flatMap_cons, List.foldlM_append, read_char]
      exact ih

end Offload.Json.Utf8
