import Offload.Base64

namespace Offload.Base64

@[elab_as_elim]
theorem groups_induction {motive : Bytes → Prop}
    (tail : ∀ tail : Bytes, tail.length < 3 → motive tail)
    (group : ∀ a b c rest, motive rest → motive (a :: b :: c :: rest)) (data : Bytes) :
    motive data := by
  match data with
  | [] => exact tail [] (by simp)
  | [a] => exact tail [a] (by simp)
  | [a, b] => exact tail [a, b] (by simp)
  | a :: b :: c :: rest => exact group a b c rest (groups_induction tail group rest)

private theorem digitChar_facts : ∀ n : Fin 64,
    digitOf? (digitChar n) = some n.val ∧ digitChar n ≠ padMark := by
  decide

variable {n : Nat}

theorem digitOf?_digitChar (hdigit : n < 64) : digitOf? (digitChar n) = some n :=
  (digitChar_facts ⟨n, hdigit⟩).1

theorem digitChar_ne_padMark (hdigit : n < 64) : digitChar n ≠ padMark :=
  (digitChar_facts ⟨n, hdigit⟩).2

def alphabet : Bytes := utf8 "ABCDEFGHIJKLMNOPQRSTUVWXYZabcdefghijklmnopqrstuvwxyz0123456789+/"

theorem digitChar_mem_alphabet (hdigit : n < 64) : digitChar n ∈ alphabet := by
  have hplaces : ∀ n : Fin 64, alphabet[n.val]? = some (digitChar n) := by decide +kernel
  exact List.mem_of_getElem? (hplaces ⟨n, hdigit⟩)

/-- The characters that are read as digits: those of the alphabet, and the pad mark. -/
def IsLegible (c : UInt8) : Prop := c ∈ alphabet ∨ c = padMark

instance (c : UInt8) : Decidable (IsLegible c) := inferInstanceAs (Decidable (_ ∨ _))

theorem IsLegible.isTrailer_eq_false {c : UInt8} (hlegible : IsLegible c) : isTrailer c = false := by
  have halphabet : ∀ c ∈ alphabet, isTrailer c = false := by decide +kernel
  rcases hlegible with hmem | rfl
  · exact halphabet c hmem
  · decide

theorem readDigit?_digitChar (hdigit : n < 64) : readDigit? (digitChar n) = some n := by
  rw [readDigit?, if_neg (digitChar_ne_padMark hdigit), digitOf?_digitChar hdigit]

theorem group_lt (a b c : UInt8) : a.toNat * 65536 + b.toNat * 256 + c.toNat < 16777216 := by
  have ha := a.toNat_lt
  have hb := b.toNat_lt
  have hc := c.toNat_lt
  omega

theorem groupChars_eq (a b c : UInt8) :
    ∃ w x y z, w < 64 ∧ x < 64 ∧ y < 64 ∧ z < 64 ∧
      groupChars a b c = [digitChar w, digitChar x, digitChar y, digitChar z] ∧
      w * 262144 + x * 4096 + y * 64 + z = a.toNat * 65536 + b.toNat * 256 + c.toNat := by
  have hgroup := group_lt a b c
  refine ⟨_, _, _, _, ?_, ?_, ?_, ?_, rfl, ?_⟩ <;> omega

theorem groupBytes_eq {w x y z : Nat} {a b c : UInt8}
    (hgroup : w * 262144 + x * 4096 + y * 64 + z = a.toNat * 65536 + b.toNat * 256 + c.toNat) :
    groupBytes w x y z = [a, b, c] := by
  have ha := a.toNat_lt
  have hb := b.toNat_lt
  have hc := c.toNat_lt
  have hfirst : (a.toNat * 65536 + b.toNat * 256 + c.toNat) / 65536 = a.toNat := by omega
  have hsecond : (a.toNat * 65536 + b.toNat * 256 + c.toNat) / 256 % 256 = b.toNat := by omega
  have hthird : (a.toNat * 65536 + b.toNat * 256 + c.toNat) % 256 = c.toNat := by omega
  simp [groupBytes, hgroup, hfirst, hsecond, hthird]

def shortfall (data : Bytes) : Nat := (3 - data.length % 3) % 3

/-- The three shapes of a text that is written last. -/
theorem write_tail_cases {tail : Bytes} (hshort : tail.length < 3) :
    tail = [] ∧ write tail = [] ∨
      ∃ w x y z, w < 64 ∧ x < 64 ∧ y < 64 ∧ z < 64 ∧
        ((∃ a, tail = [a] ∧ write tail = [digitChar w, digitChar x, padMark, padMark] ∧
            w * 262144 + x * 4096 = a.toNat * 65536) ∨
          ∃ a b, tail = [a, b] ∧ write tail = [digitChar w, digitChar x, digitChar y, padMark] ∧
            w * 262144 + x * 4096 + y * 64 = a.toNat * 65536 + b.toNat * 256) := by
  rw [write_tail hshort]
  match tail, hshort with
  | [], _ => exact .inl ⟨rfl, rfl⟩
  | [a], _ =>
    obtain ⟨w, x, y, z, hw, hx, hy, hz, hchars, hgroup⟩ := groupChars_eq a 0 0
    refine .inr ⟨w, x, y, z, hw, hx, hy, hz, .inl ⟨a, rfl, ?_, ?_⟩⟩
    · have hcut : tailChars [a] = (groupChars a 0 0).take 2 ++ [padMark, padMark] := by rw [tailChars]
      rw [hcut, hchars]
      simp only [List.take, List.cons_append, List.nil_append]
    · simp only [UInt8.toNat_zero] at hgroup
      have hz : z = 0 := by omega
      have hy : y = 0 := by omega
      rw [hy, hz] at hgroup
      simpa using hgroup
  | [a, b], _ =>
    obtain ⟨w, x, y, z, hw, hx, hy, hz, hchars, hgroup⟩ := groupChars_eq a b 0
    refine .inr ⟨w, x, y, z, hw, hx, hy, hz, .inr ⟨a, b, rfl, ?_, ?_⟩⟩
    · have hcut : tailChars [a, b] = (groupChars a b 0).take 3 ++ [padMark] := by rw [tailChars]
      rw [hcut, hchars]
      simp only [List.take, List.cons_append, List.nil_append]
    · simp only [UInt8.toNat_zero] at hgroup
      have hz : z = 0 := by omega
      rw [hz] at hgroup
      simpa using hgroup

theorem write_length (data : Bytes) : (write data).length = 4 * ((data.length + 2) / 3) := by
  induction data using groups_induction with
  | tail tail hshort =>
    rcases write_tail_cases hshort with ⟨rfl, htext⟩ | ⟨w, x, y, z, -, -, -, -, h⟩
    · simp [htext]
    · rcases h with ⟨a, rfl, htext, -⟩ | ⟨a, b, rfl, htext, -⟩ <;> simp [htext]
  | group a b c rest ih =>
    rw [write_cons, List.length_append, ih]
    simp only [groupChars, List.length_cons, List.length_nil]
    omega

theorem shortfall_cons (a b c : UInt8) (rest : Bytes) :
    shortfall (a :: b :: c :: rest) = shortfall rest := by
  simp only [shortfall, List.length_cons]
  omega

/-- A text is digits, and behind them a pad mark for each byte that the last group is short of. -/
theorem write_shape (data : Bytes) :
    ∃ digits : List Nat, (∀ n ∈ digits, n < 64) ∧
      write data = digits.map digitChar ++ List.replicate (shortfall data) padMark := by
  induction data using groups_induction with
  | tail tail hshort =>
    rcases write_tail_cases hshort with ⟨rfl, htext⟩ | ⟨w, x, y, z, hw, hx, hy, -, h⟩
    · exact ⟨[], by simp, htext⟩
    · rcases h with ⟨a, rfl, htext, -⟩ | ⟨a, b, rfl, htext, -⟩
      · exact ⟨[w, x], by simp [hw, hx], htext⟩
      · exact ⟨[w, x, y], by simp [hw, hx, hy], htext⟩
  | group a b c rest ih =>
    obtain ⟨w, x, y, z, hw, hx, hy, hz, hchars, -⟩ := groupChars_eq a b c
    obtain ⟨digits, hdigits, htext⟩ := ih
    refine ⟨w :: x :: y :: z :: digits, ?_, ?_⟩
    · simp only [List.forall_mem_cons]
      exact ⟨hw, hx, hy, hz, hdigits⟩
    · rw [write_cons, hchars, htext, shortfall_cons]
      simp only [List.map_cons, List.cons_append, List.nil_append]

theorem isLegible_of_mem_write (data : Bytes) : ∀ c ∈ write data, IsLegible c := by
  obtain ⟨digits, hdigits, htext⟩ := write_shape data
  intro c hc
  rw [htext, List.mem_append, List.mem_map] at hc
  rcases hc with ⟨n, hn, rfl⟩ | hpad
  · exact .inl (digitChar_mem_alphabet (hdigits n hn))
  · exact .inr (List.eq_of_mem_replicate hpad)

theorem dropTrailers_of_plain {text : Bytes} (hplain : ∀ c ∈ text, isTrailer c = false) (n : Nat) :
    dropTrailers n text = text := by
  cases n with
  | zero => cases text <;> rfl
  | succ n =>
    cases text with
    | nil => rfl
    | cons c rest =>
      have hc : isTrailer c = false := hplain c List.mem_cons_self
      simp [dropTrailers, hc]

theorem trim_of_plain {text : Bytes} (hplain : ∀ c ∈ text, isTrailer c = false) :
    trim text = text := by
  have hfront : text.dropWhile isBlank = text := by
    cases text with
    | nil => rfl
    | cons c rest =>
      have hc : isTrailer c = false := hplain c List.mem_cons_self
      have hblank : isBlank c = false := by
        simp only [isTrailer, Bool.or_eq_false_iff] at hc
        simp [isBlank, hc]
      simp [hblank]
  have hback : ∀ n, dropTrailers n text.reverse = text.reverse :=
    dropTrailers_of_plain (by simpa using hplain)
  rw [trim, hfront, hback, List.reverse_reverse]

theorem readGroupsOnto_cons {a b c d : UInt8} {w x y z : Nat} {first second third : UInt8}
    (ha : readDigit? a = some w) (hb : readDigit? b = some x) (hc : readDigit? c = some y)
    (hd : readDigit? d = some z)
    (hgroup : w * 262144 + x * 4096 + y * 64 + z =
      first.toNat * 65536 + second.toNat * 256 + third.toNat) (done text : Bytes) :
    readGroupsOnto done (a :: b :: c :: d :: text) =
      readGroupsOnto (third :: second :: first :: done) text := by
  simp [readGroupsOnto, ha, hb, hc, hd, groupBytes_eq hgroup]

/-- The written groups are read as the bytes, and the last one as filled up with zeros. -/
theorem readGroupsOnto_write (data done : Bytes) :
    readGroupsOnto done (write data) =
      some (done.reverse ++ data ++ List.replicate (shortfall data) 0) := by
  have hpad : readDigit? padMark = some 0 := rfl
  induction data using groups_induction generalizing done with
  | tail tail hshort =>
    rcases write_tail_cases hshort with ⟨rfl, htext⟩ | ⟨w, x, y, z, hw, hx, hy, hz, h⟩
    · simp [htext, readGroupsOnto, shortfall]
    · rcases h with ⟨a, rfl, htext, hgroup⟩ | ⟨a, b, rfl, htext, hgroup⟩
      · have hbits : w * 262144 + x * 4096 + 0 * 64 + 0 =
            a.toNat * 65536 + (0 : UInt8).toNat * 256 + (0 : UInt8).toNat := by
          simpa using hgroup
        rw [htext, readGroupsOnto_cons (readDigit?_digitChar hw) (readDigit?_digitChar hx) hpad hpad
          hbits]
        simp [readGroupsOnto, shortfall, List.replicate]
      · have hbits : w * 262144 + x * 4096 + y * 64 + 0 =
            a.toNat * 65536 + b.toNat * 256 + (0 : UInt8).toNat := by
          simpa using hgroup
        rw [htext, readGroupsOnto_cons (readDigit?_digitChar hw) (readDigit?_digitChar hx)
          (readDigit?_digitChar hy) hpad hbits]
        simp [readGroupsOnto, shortfall]
  | group a b c rest ih =>
    obtain ⟨w, x, y, z, hw, hx, hy, hz, hchars, hgroup⟩ := groupChars_eq a b c
    have hread := readGroupsOnto_cons (readDigit?_digitChar hw) (readDigit?_digitChar hx)
      (readDigit?_digitChar hy) (readDigit?_digitChar hz) hgroup done (write rest)
    rw [write_cons, hchars, shortfall_cons]
    simp only [List.cons_append, List.nil_append]
    rw [hread, ih]
    simp

theorem padCount_append_pads {front : Bytes} (hfront : ∀ c ∈ front, c ≠ padMark) (hpads : n ≤ 2) :
    padCount (front ++ List.replicate n padMark) = n := by
  have hnone : (front.reverse.take (2 - n)).filter (· = padMark) = [] := by
    rw [List.filter_eq_nil_iff]
    intro c hc
    simpa using hfront c (List.mem_reverse.mp (List.mem_of_mem_take hc))
  have htake : min 2 n = n := by omega
  rw [padCount, List.reverse_append, List.reverse_replicate, List.take_append, List.take_replicate,
    List.length_replicate, List.filter_append, hnone, htake]
  simp

theorem padCount_write (data : Bytes) : padCount (write data) = shortfall data := by
  obtain ⟨digits, hdigits, htext⟩ := write_shape data
  have hfront : ∀ c ∈ digits.map digitChar, c ≠ padMark := by
    simp only [List.forall_mem_map]
    exact fun n hn => digitChar_ne_padMark (hdigits n hn)
  rw [htext]
  exact padCount_append_pads hfront (by unfold shortfall; omega)

theorem readGroups_write (data : Bytes) :
    readGroups (write data) = some (data ++ List.replicate (shortfall data) 0) := by
  have htrim : trim (write data) = write data :=
    trim_of_plain fun c hmem => (isLegible_of_mem_write data c hmem).isTrailer_eq_false
  rw [readGroups, htrim, readGroupsOnto_write]
  rfl

variable {data : Bytes}

theorem text_eq (hsize : data.length ≤ 1610612733) : text data = write data := by
  rw [text, part_eq (by omega)]

theorem text_length_lt (hsize : data.length ≤ 1610612733) : (text data).length < 2147483648 := by
  rw [text_eq hsize, write_length]
  omega

theorem overlong_eq_false (hsize : data.length ≤ 1610612733) : overlong data = false := by
  rw [overlong, told_eq (by omega)]
  simp only [decide_eq_false_iff_not]
  omega

theorem encode_eq_text (hsize : data.length ≤ 1610612733) : encode data = .ok (text data) := by
  rw [encode, overlong_eq_false hsize, if_neg Bool.false_ne_true]

theorem decode_text (hsize : data.length ≤ 1610612733) : decode (text data) = .ok data := by
  have hlength := write_length data
  have hword : part (write data) = write data := by
    rw [← text_eq hsize]
    exact part_eq (text_length_lt hsize)
  rw [text_eq hsize]
  unfold decode
  split
  · next hempty =>
    rw [hempty] at hlength
    have hnone : data = [] := List.length_eq_zero_iff.mp (by simp only [List.length_nil] at hlength; omega)
    rw [hnone]
  · rw [if_neg (by omega), hword, readGroups_write, padCount_write]
    simp

end Offload.Base64
