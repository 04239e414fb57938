import Mathlib.Algebra.Group.Nat.Defs
import Mathlib.Data.List.TakeWhile
import Offload.Proofs.Base64

namespace Offload.Base64

variable {text front core back : Bytes} {c : UInt8}

private theorem digitOf?_facts :
    ∀ code : Fin 256, ∀ n ∈ digitOf? (.ofNat code), n < 64 ∧ digitChar n = .ofNat code := by
  decide +kernel

theorem exists_digitOf?_iff : (∃ n, digitOf? c = some n) ↔ c ∈ alphabet := by
  constructor
  · rintro ⟨n, hdigit⟩
    have hcode := digitOf?_facts ⟨c.toNat, c.toNat_lt⟩ n
    rw [UInt8.ofNat_toNat] at hcode
    obtain ⟨hlt, hsame⟩ := hcode hdigit
    exact hsame ▸ digitChar_mem_alphabet hlt
  · have hread : ∀ c ∈ alphabet, (digitOf? c).isSome = true := by decide +kernel
    exact fun hmem => Option.isSome_iff_exists.mp (hread c hmem)

theorem padMark_not_mem_alphabet : padMark ∉ alphabet := by
  rw [← exists_digitOf?_iff]
  rintro ⟨n, hdigit⟩
  cases hdigit

theorem exists_readDigit?_iff : (∃ n, readDigit? c = some n) ↔ IsLegible c := by
  rw [IsLegible, ← exists_digitOf?_iff, readDigit?]
  by_cases hpad : c = padMark
  · simp [hpad]
  · simp [hpad]

theorem isTrailer_of_isBlank (hblank : isBlank c = true) : isTrailer c = true := by
  simp only [isBlank, Bool.or_eq_true] at hblank
  simp only [isTrailer, Bool.or_eq_true]
  exact .inl (.inl (.inl hblank))

@[elab_as_elim]
theorem quads_induction {motive : Bytes → Prop}
    (rest : ∀ rest : Bytes, rest.length < 4 → motive rest)
    (quad : ∀ a b c d text, motive text → motive (a :: b :: c :: d :: text)) (text : Bytes) :
    motive text := by
  match text with
  | [] => exact rest [] (by simp)
  | [a] => exact rest [a] (by simp)
  | [a, b] => exact rest [a, b] (by simp)
  | [a, b, c] => exact rest [a, b, c] (by simp)
  | a :: b :: c :: d :: text => exact quad a b c d text (quads_induction rest quad text)

theorem readGroupsOnto_of_short (done : Bytes) {rest : Bytes} (hshort : rest.length < 4) :
    readGroupsOnto done rest = if rest = [] then some done.reverse else none := by
  match rest, hshort with
  | [], _ => simp [readGroupsOnto]
  | [a], _ | [a, b], _ | [a, b, c], _ => simp [readGroupsOnto]
  | a :: b :: c :: d :: rest, hshort => simp only [List.length_cons] at hshort; omega

theorem readGroupsOnto_quad (done : Bytes) (a b c d : UInt8) (text : Bytes) :
    (∃ group : Bytes, group.length = 3 ∧ (∀ e ∈ [a, b, c, d], IsLegible e) ∧
        readGroupsOnto done (a :: b :: c :: d :: text) = readGroupsOnto (group ++ done) text) ∨
      (¬ ∀ e ∈ [a, b, c, d], IsLegible e) ∧
        readGroupsOnto done (a :: b :: c :: d :: text) = none := by
  simp only [← exists_readDigit?_iff, List.forall_mem_cons]
  rw [readGroupsOnto]
  split
  · next w x y z hw hx hy hz =>
    refine .inl ⟨(groupBytes w x y z).reverse, rfl, ⟨⟨w, hw⟩, ⟨x, hx⟩, ⟨y, hy⟩, ⟨z, hz⟩, ?_⟩, rfl⟩
    exact List.forall_mem_nil _
  · next hnone =>
    refine .inr ⟨?_, rfl⟩
    rintro ⟨⟨w, hw⟩, ⟨x, hx⟩, ⟨y, hy⟩, ⟨z, hz⟩, -⟩
    exact hnone w x y z hw hx hy hz

/-- Whole groups of legible characters are read, and nothing else. -/
theorem exists_readGroupsOnto_iff (text done : Bytes) :
    (∃ bytes, readGroupsOnto done text = some bytes) ↔
      text.length % 4 = 0 ∧ ∀ c ∈ text, IsLegible c := by
  induction text using quads_induction generalizing done with
  | rest rest hshort =>
    rw [readGroupsOnto_of_short done hshort]
    by_cases hnone : rest = []
    · simp [hnone]
    · have hlength : rest.length ≠ 0 := by simpa using hnone
      have hmod : rest.length % 4 ≠ 0 := by omega
      simp [hnone, hmod]
  | quad a b c d text ih =>
    have hlength : (a :: b :: c :: d :: text).length % 4 = text.length % 4 := by
      simp only [List.length_cons]
      omega
    have hmem : (∀ e ∈ a :: b :: c :: d :: text, IsLegible e) ↔
        (∀ e ∈ [a, b, c, d], IsLegible e) ∧ ∀ e ∈ text, IsLegible e :=
      @List.forall_mem_append _ _ [a, b, c, d] text
    rw [hlength, hmem]
    rcases readGroupsOnto_quad done a b c d text with ⟨group, _, hquad, hread⟩ | ⟨hquad, hread⟩
    · rw [hread, ih (group ++ done)]
      simp only [and_iff_right hquad]
    · rw [hread]
      simp only [reduceCtorEq, exists_false, false_iff, not_and]
      exact fun _ hlegible => (hquad hlegible).elim

theorem readGroupsOnto_length {text done bytes : Bytes} (hread : readGroupsOnto done text = some bytes) :
    bytes.length = done.length + 3 * (text.length / 4) := by
  induction text using quads_induction generalizing done with
  | rest rest hshort =>
    rw [readGroupsOnto_of_short done hshort] at hread
    split at hread
    · next hnone =>
      cases hread
      simp [hnone]
    · cases hread
  | quad a b c d text ih =>
    rcases readGroupsOnto_quad done a b c d text with ⟨group, hgroup, _, hstep⟩ | ⟨_, hstep⟩
    · rw [hstep] at hread
      have hrest := ih hread
      rw [List.length_append, hgroup] at hrest
      simp only [List.length_cons]
      omega
    · rw [hstep] at hread
      cases hread

/-- Trailers are dropped, but never so many that fewer than three characters remain. -/
theorem dropTrailers_spec {n : Nat} (text : Bytes) (hlength : text.length = n) :
    ∃ dropped, text = dropped ++ dropTrailers n text ∧ (∀ c ∈ dropped, isTrailer c = true) ∧
      (dropped ≠ [] → 3 ≤ (dropTrailers n text).length) := by
  induction n generalizing text with
  | zero => exact ⟨[], by cases text <;> rfl, List.forall_mem_nil _, fun hnil => (hnil rfl).elim⟩
  | succ n ih =>
    cases text with
    | nil => cases hlength
    | cons c rest =>
      have hrest : rest.length = n := Nat.succ.inj hlength
      by_cases hdrop : 3 < n + 1 ∧ isTrailer c = true
      · obtain ⟨dropped, hsplit, htrailers, hleft⟩ := ih rest hrest
        rw [dropTrailers, if_pos hdrop]
        refine ⟨c :: dropped, by rw [List.cons_append, ← hsplit], ?_, fun _ => ?_⟩
        · simp only [List.forall_mem_cons]
          exact ⟨hdrop.2, htrailers⟩
        · cases dropped with
          | nil =>
            rw [List.nil_append] at hsplit
            rw [← hsplit]
            omega
          | cons => exact hleft (List.cons_ne_nil _ _)
      · rw [dropTrailers, if_neg hdrop]
        exact ⟨[], rfl, List.forall_mem_nil _, fun hnil => (hnil rfl).elim⟩

theorem dropTrailers_append {kept : Bytes} (hback : ∀ c ∈ back, isTrailer c = true)
    (hkept : ∀ c ∈ kept, isTrailer c = false) (hlength : 3 ≤ kept.length) :
    dropTrailers (back ++ kept).length (back ++ kept) = kept := by
  induction back with
  | nil => exact dropTrailers_of_plain hkept _
  | cons c back ih =>
    simp only [List.forall_mem_cons] at hback
    have hdrop : 3 < (back ++ kept).length + 1 ∧ isTrailer c = true := by
      rw [List.length_append]
      exact ⟨by omega, hback.1⟩
    rw [List.cons_append, List.length_cons, dropTrailers, if_pos hdrop, ih hback.2]

/-- A text as the reader sees it: whole groups of digits and pad marks between characters that are
dropped. Nothing is dropped behind where nothing is left. -/
structure Frames (text front core back : Bytes) : Prop where
  split : text = front ++ core ++ back
  front_blank : ∀ c ∈ front, isBlank c = true
  core_legible : ∀ c ∈ core, IsLegible c
  core_groups : core.length % 4 = 0
  back_trailer : ∀ c ∈ back, isTrailer c = true
  back_eq_nil : core = [] → back = []

theorem trim_split (text : Bytes) :
    ∃ front back, text = front ++ trim text ++ back ∧ (∀ c ∈ front, isBlank c = true) ∧
      (∀ c ∈ back, isTrailer c = true) ∧ (trim text = [] → back = []) := by
  let rest := text.dropWhile isBlank
  obtain ⟨dropped, hsplit, htrailers, hleft⟩ :=
    @dropTrailers_spec rest.length rest.reverse List.length_reverse
  have hrest : rest = trim text ++ dropped.reverse := by
    rw [← List.reverse_reverse rest, hsplit, List.reverse_append]
    rfl
  refine ⟨text.takeWhile isBlank, dropped.reverse, ?_, fun c hc => ?_, ?_, fun hnone => ?_⟩
  · rw [List.append_assoc, ← hrest, List.takeWhile_append_dropWhile]
  · exact List.mem_takeWhile_imp hc
  · simpa using htrailers
  · by_contra hback
    have hdropped : dropped ≠ [] := by simpa using hback
    have hmany := hleft hdropped
    rw [trim, List.reverse_eq_nil_iff] at hnone
    rw [hnone] at hmany
    simp at hmany

theorem Frames.trim_eq (hframes : Frames text front core back) : trim text = core := by
  have hplain : ∀ c ∈ core, isTrailer c = false := fun c hc =>
    (hframes.core_legible c hc).isTrailer_eq_false
  rw [hframes.split, List.append_assoc, trim, List.dropWhile_append_of_pos hframes.front_blank]
  cases hcore : core with
  | nil => simp [hframes.back_eq_nil hcore, dropTrailers]
  | cons c rest =>
    rw [← hcore]
    have hc : isBlank c = false := by
      have hc := hplain c (hcore ▸ List.mem_cons_self)
      by_contra hblank
      rw [isTrailer_of_isBlank (by simpa using hblank)] at hc
      cases hc
    have hgroups := hframes.core_groups
    have hlong : 3 ≤ core.length := by
      have hsome : core.length ≠ 0 := by simp [hcore]
      omega
    have hstart : (core ++ back).dropWhile isBlank = core ++ back := by
      rw [hcore, List.cons_append, List.dropWhile_cons_of_neg (by simp [hc])]
    rw [hstart, List.reverse_append]
    have hlength : (core ++ back).length = (back.reverse ++ core.reverse).length := by
      simp [Nat.add_comm]
    rw [hlength, dropTrailers_append (by simpa using hframes.back_trailer) (by simpa using hplain)
      (by simpa using hlong), List.reverse_reverse]

theorem exists_readGroups_iff :
    (∃ bytes, readGroups text = some bytes) ↔ ∃ front core back, Frames text front core back := by
  rw [readGroups, exists_readGroupsOnto_iff]
  constructor
  · rintro ⟨hgroups, hlegible⟩
    obtain ⟨front, back, hsplit, hfront, hback, hnone⟩ := trim_split text
    exact ⟨front, trim text, back, hsplit, hfront, hlegible, hgroups, hback, hnone⟩
  · rintro ⟨front, core, back, hframes⟩
    rw [hframes.trim_eq]
    exact ⟨hframes.core_groups, hframes.core_legible⟩

theorem Frames.readGroups_length (hframes : Frames text front core back) {bytes : Bytes}
    (hread : readGroups text = some bytes) : bytes.length = 3 * (core.length / 4) := by
  rw [readGroups, hframes.trim_eq] at hread
  simpa using readGroupsOnto_length hread

theorem padCount_le_two (text : Bytes) : padCount text ≤ 2 := by
  have hfiltered := List.length_filter_le (fun c => decide (c = padMark)) (text.reverse.take 2)
  have htaken := List.length_take_le 2 text.reverse
  rw [padCount]
  omega

theorem padCount_of_blank (hblank : ∀ c ∈ text, isBlank c = true) : padCount text = 0 := by
  rw [padCount, List.length_eq_zero_iff, List.filter_eq_nil_iff]
  intro c hc hpad
  have hc := hblank c (List.mem_reverse.mp (List.mem_of_mem_take hc))
  rw [of_decide_eq_true hpad] at hc
  exact absurd hc (by decide)

theorem three_le_of_padCount {bytes : Bytes} (hread : readGroups text = some bytes)
    (hpads : padCount text ≠ 0) : 3 ≤ bytes.length := by
  obtain ⟨front, core, back, hframes⟩ := exists_readGroups_iff.mp ⟨bytes, hread⟩
  rw [hframes.readGroups_length hread]
  cases hcore : core with
  | nil =>
    have htext : text = front := by
      rw [hframes.split, hframes.back_eq_nil hcore, hcore, List.append_nil, List.append_nil]
    rw [htext, padCount_of_blank hframes.front_blank] at hpads
    exact (hpads rfl).elim
  | cons c rest =>
    have hgroups := hframes.core_groups
    rw [hcore] at hgroups
    simp only [List.length_cons] at hgroups ⊢
    omega

theorem padCount_le_of_readGroups {bytes : Bytes} (hread : readGroups text = some bytes) :
    padCount text ≤ bytes.length := by
  by_cases hpads : padCount text = 0
  · omega
  · have hfew := padCount_le_two text
    have hgroup := three_le_of_padCount hread hpads
    omega

/-- A text is read if its length is that of whole groups, the groups that the codec is told of are read,
and they are as many bytes as are taken off for pad marks. -/
theorem decode_eq_ok_iff_part {data : Bytes} :
    decode text = .ok data ↔ text.length % 4 = 0 ∧ ∃ bytes, readGroups (part text) = some bytes ∧
      padCount text ≤ bytes.length ∧ data = bytes.take (bytes.length - padCount text) := by
  by_cases hempty : text = []
  · subst hempty
    have hread : readGroups (part []) = some [] := rfl
    have hpads : padCount [] = 0 := rfl
    simp [decode, hread, hpads, eq_comm]
  · rw [decode, if_neg hempty]
    by_cases hlength : text.length % 4 = 0
    · rw [if_neg (not_not_intro hlength)]
      cases hread : readGroups (part text) with
      | none => simp
      | some bytes =>
        by_cases hroom : padCount text ≤ bytes.length
        · simp [Nat.not_lt.mpr hroom, hroom, hlength, eq_comm]
        · simp [Nat.lt_of_not_le hroom, hroom]
    · rw [if_pos hlength]
      simp [hlength]

theorem decode_eq_ok_iff (hword : text.length < 2147483648) {data : Bytes} :
    decode text = .ok data ↔ text.length % 4 = 0 ∧ ∃ bytes, readGroups text = some bytes ∧
      data = bytes.take (bytes.length - padCount text) := by
  rw [decode_eq_ok_iff_part, part_eq hword]
  refine and_congr_right fun _ => exists_congr fun bytes => and_congr_right fun hread => ?_
  exact and_iff_right (padCount_le_of_readGroups hread)

theorem failure_of_decode {failure : Failure} (hdecode : decode text = .error failure) :
    failure = .base64Length ∨ failure = .base64Malformed ∨
      failure = .base64Overrun ∧ 2147483648 ≤ text.length := by
  rw [decode] at hdecode
  split at hdecode
  · cases hdecode
  · split at hdecode
    · cases hdecode
      exact .inl rfl
    · split at hdecode
      · cases hdecode
        exact .inr (.inl rfl)
      · next bytes hread =>
        split at hdecode
        · next hroom =>
          cases hdecode
          refine .inr (.inr ⟨rfl, Nat.not_lt.mp fun hword => ?_⟩)
          rw [part_eq hword] at hread
          exact Nat.not_lt.mpr (padCount_le_of_readGroups hread) hroom
        · cases hdecode

/-- The texts of base64: whole groups of digits, with at most two pad marks in place of the last ones. -/
structure WellFormed (text : Bytes) : Prop where
  groups : text.length % 4 = 0
  shape : ∃ digits pads, text = digits ++ pads ∧ (∀ c ∈ digits, c ∈ alphabet) ∧
    (∀ c ∈ pads, c = padMark) ∧ pads.length ≤ 2

theorem WellFormed.mem_alphabet (hformed : WellFormed text) :
    ∀ c ∈ text.take (text.length - 2), c ∈ alphabet := by
  obtain ⟨digits, pads, rfl, hdigits, _, hpads⟩ := hformed.shape
  intro c hc
  rw [List.length_append, List.take_append_of_le_length (by omega)] at hc
  exact hdigits c (List.mem_of_mem_take hc)

theorem WellFormed.frames (hformed : WellFormed text) : Frames text [] text [] := by
  obtain ⟨digits, pads, hsplit, hdigits, hpads, _⟩ := hformed.shape
  refine ⟨by simp, List.forall_mem_nil _, fun c hc => ?_, hformed.groups, List.forall_mem_nil _,
    fun _ => rfl⟩
  rw [hsplit, List.mem_append] at hc
  exact hc.imp (hdigits c) (hpads c)

theorem WellFormed.padCount_eq (hformed : WellFormed text) : padCount text = text.count padMark := by
  obtain ⟨digits, pads, rfl, hdigits, hpads, hfew⟩ := hformed.shape
  have hfront : ∀ c ∈ digits, c ≠ padMark := by
    rintro c hc rfl
    exact padMark_not_mem_alphabet (hdigits _ hc)
  have hnone : digits.count padMark = 0 :=
    List.count_eq_zero_of_not_mem fun hpad => hfront padMark hpad rfl
  rw [List.eq_replicate_of_mem hpads, padCount_append_pads hfront hfew, List.count_append, hnone,
    List.count_replicate_self, Nat.zero_add]

/-- Nothing of the text is dropped, and its pad marks stand at its very end, two at most. -/
structure Orderly (text : Bytes) : Prop where
  kept : ∀ c ∈ text, isTrailer c = false
  shape : ∃ digits pads, text = digits ++ pads ∧ padMark ∉ digits ∧ (∀ c ∈ pads, c = padMark) ∧
    pads.length ≤ 2

theorem Frames.wellFormed (hframes : Frames text front core back) (horderly : Orderly text) :
    WellFormed text := by
  have hsplit := hframes.split
  have hfront : front = [] := by
    refine List.eq_nil_iff_forall_not_mem.mpr fun c hc => ?_
    have hkept := horderly.kept c (by simp [hsplit, hc])
    rw [isTrailer_of_isBlank (hframes.front_blank c hc)] at hkept
    cases hkept
  have hback : back = [] := by
    refine List.eq_nil_iff_forall_not_mem.mpr fun c hc => ?_
    have hkept := horderly.kept c (by simp [hsplit, hc])
    rw [hframes.back_trailer c hc] at hkept
    cases hkept
  have hcore : text = core := by rw [hsplit, hfront, hback, List.nil_append, List.append_nil]
  obtain ⟨digits, pads, hshape, hdigits, hpads, hfew⟩ := horderly.shape
  refine ⟨hcore ▸ hframes.core_groups, digits, pads, hshape, fun c hc => ?_, hpads, hfew⟩
  have hlegible : IsLegible c := by
    refine hframes.core_legible c ?_
    rw [← hcore, hshape]
    exact List.mem_append_left _ hc
  rcases hlegible with hmem | rfl
  · exact hmem
  · exact (hdigits hc).elim

/-- A text shorter than 2^31 characters is read just if its length is that of whole groups and it frames
such groups; whatever it is, a text that is not read is refused as an argument. The texts of base64 are
read, each as three bytes for a group less one for each pad mark. Where nothing is dropped and no pad mark
is out of place, no other text is read. -/
theorem decode_accepts_exactly (text : Bytes) (hword : text.length < 2 ^ 31) :
    ((∃ data, decode text = .ok data) ↔
        text.length % 4 = 0 ∧ ∃ front core back, Frames text front core back) ∧
      (∀ failure, decode text = .error failure → failure.kind = .argument) ∧
      (∀ front core back, Frames text front core back → ∀ data, decode text = .ok data →
        data.length = 3 * core.length / 4 - padCount text) ∧
      (WellFormed text → ∃ data, decode text = .ok data ∧
        data.length = 3 * text.length / 4 - text.count padMark) ∧
      (Orderly text → ((∃ data, decode text = .ok data) ↔ WellFormed text)) := by
  have haccepts : (∃ data, decode text = .ok data) ↔
      text.length % 4 = 0 ∧ ∃ front core back, Frames text front core back := by
    simp only [decode_eq_ok_iff hword, ← exists_readGroups_iff]
    constructor
    · rintro ⟨_, hlength, bytes, hread, -⟩
      exact ⟨hlength, bytes, hread⟩
    · rintro ⟨hlength, bytes, hread⟩
      exact ⟨_, hlength, bytes, hread, rfl⟩
  have hlength : ∀ front core back, Frames text front core back → ∀ data, decode text = .ok data →
      data.length = 3 * core.length / 4 - padCount text := by
    intro front core back hframes data hdecode
    obtain ⟨_, bytes, hread, rfl⟩ := (decode_eq_ok_iff hword).mp hdecode
    have hgroups := hframes.core_groups
    rw [List.length_take, hframes.readGroups_length hread]
    omega
  refine ⟨haccepts, fun failure hdecode => ?_, hlength, fun hformed => ?_,
    fun horderly => ⟨fun hread => ?_, fun hformed => ?_⟩⟩
  · rcases failure_of_decode hdecode with rfl | rfl | ⟨-, hlong⟩
    · rfl
    · rfl
    · omega
  · obtain ⟨data, hdecode⟩ := haccepts.mpr ⟨hformed.groups, [], text, [], hformed.frames⟩
    refine ⟨data, hdecode, ?_⟩
    rw [hlength [] text [] hformed.frames data hdecode, hformed.padCount_eq]
  · obtain ⟨_, front, core, back, hframes⟩ := haccepts.mp hread
    exact hframes.wellFormed horderly
  · exact haccepts.mpr ⟨hformed.groups, [], text, [], hformed.frames⟩

/-- Two texts of base64 in a row are no text of base64 if the first one is padded, and yet they are read:
the pad mark in the middle counts as a digit, and a byte that nobody wrote stands in the result. -/
theorem inner_pad_read :
    ¬ WellFormed (utf8 "TWE=TWFu") ∧ decode (utf8 "TWE=TWFu") = .ok (utf8 "Ma\x00Man") := by
  refine ⟨fun hformed => ?_, by decide +kernel⟩
  exact padMark_not_mem_alphabet (hformed.mem_alphabet padMark (by decide +kernel))

/-- Blanks around a text are not read, but they keep the pad mark in front of them from being counted. -/
theorem decode_accepts_exactly_framed :
    (utf8 "  TWE=\n-").length < 2 ^ 31 ∧
      Frames (utf8 "  TWE=\n-") (utf8 "  ") (utf8 "TWE=") (utf8 "\n-") ∧
      (∃ data, decode (utf8 "  TWE=\n-") = .ok data ∧ data.length = 3) ∧
      Orderly (utf8 "TWE=") ∧ WellFormed (utf8 "TWE=") ∧
      ∃ data, decode (utf8 "TWE=") = .ok data ∧ data.length = 2 := by
  have hframes : Frames (utf8 "  TWE=\n-") (utf8 "  ") (utf8 "TWE=") (utf8 "\n-") := by
    constructor <;> decide +kernel
  have horderly : Orderly (utf8 "TWE=") :=
    ⟨by decide +kernel, utf8 "TWE", utf8 "=", by decide +kernel, by decide +kernel, by decide +kernel,
      by decide +kernel⟩
  have hword : (utf8 "  TWE=\n-").length < 2 ^ 31 := by decide +kernel
  obtain ⟨haccepts, _, hlength, _, _⟩ := decode_accepts_exactly (utf8 "  TWE=\n-") hword
  obtain ⟨_, _, _, hbytes, hformed⟩ := decode_accepts_exactly (utf8 "TWE=") (by decide +kernel)
  obtain ⟨data, hdecode⟩ := haccepts.mpr ⟨by decide +kernel, _, _, _, hframes⟩
  have hformed := (hformed horderly).mp ⟨utf8 "Ma", by decide +kernel⟩
  exact ⟨hword, hframes, ⟨data, hdecode, hlength _ _ _ hframes data hdecode⟩, horderly, hformed, hbytes hformed⟩

end Offload.Base64
