import Mathlib.Algebra.Order.Ring.Nat
import Offload.Number.Binary

namespace Offload.Number

theorem two_pow_eq (n : Nat) : Nat.pow 2 n = 2 ^ n := rfl

theorem mul_two_pow_add (q k scale places : Nat) :
    q * 2 ^ k * 2 ^ (scale + places) = 2 ^ scale * (q * 2 ^ (k + places)) := by
  rw [Nat.pow_add, Nat.pow_add, Nat.mul_left_comm, Nat.mul_assoc]

theorem roundDiv_mul_left (n : Nat) {den : Nat} (hden : 0 < den) : roundDiv (den * n) den = n := by
  have hexact : den * n % den = 0 := Nat.mul_mod_right den n
  have hquotient : den * n / den = n := Nat.mul_div_cancel_left n hden
  simp [roundDiv, hexact, hquotient, hden]

namespace Format

variable {format : Format} {q k : Nat}

/-- A significand and its shift, as the format holds them: a significand that is shifted has its
leading bit. -/
structure Held (format : Format) (q k : Nat) : Prop where
  fits : q < 2 * format.hidden
  leads : 0 < k → format.hidden ≤ q

theorem hidden_pos (format : Format) : 0 < format.hidden := Nat.two_pow_pos _

theorem two_mul_hidden (hprecision : 0 < format.precision) : 2 * format.hidden = 2 ^ format.precision := by
  have hsucc : format.precision = format.precision - 1 + 1 := by omega
  rw [hidden, two_pow_eq, hsucc, Nat.pow_succ, Nat.mul_comm]
  rfl

theorem exists_held (format : Format) (bits : Nat) :
    ∃ q k, format.Held q k ∧ bits = q + k * format.hidden := by
  have hpos := format.hidden_pos
  by_cases hsmall : bits < format.hidden
  · exact ⟨bits, 0, ⟨by omega, nofun⟩, by omega⟩
  · have hmod := Nat.mod_lt bits hpos
    have hdiv := Nat.div_add_mod bits format.hidden
    have hquotient : 1 ≤ bits / format.hidden := (Nat.one_le_div_iff hpos).mpr (by omega)
    refine ⟨format.hidden + bits % format.hidden, bits / format.hidden - 1,
      ⟨by omega, fun _ => Nat.le_add_right _ _⟩, ?_⟩
    have hsplit : bits / format.hidden = bits / format.hidden - 1 + 1 := by omega
    rw [hsplit, Nat.mul_add, Nat.mul_one, Nat.mul_comm] at hdiv
    omega

theorem Held.units_eq (hheld : format.Held q k) : format.units (q + k * format.hidden) = q * 2 ^ k := by
  have hpos := format.hidden_pos
  have hfits := hheld.fits
  by_cases hleads : format.hidden ≤ q
  · obtain ⟨rest, rfl⟩ := Nat.exists_eq_add_of_le hleads
    have hbits : format.hidden + rest + k * format.hidden = rest + (k + 1) * format.hidden := by
      rw [Nat.add_mul]
      omega
    have hrest : rest < format.hidden := by omega
    have hlarge : ¬ rest + (k + 1) * format.hidden < format.hidden := by
      rw [Nat.add_mul]
      omega
    rw [units, hbits, if_neg hlarge, Nat.add_mul_mod_self_right, Nat.mod_eq_of_lt hrest,
      Nat.add_mul_div_right _ _ hpos, Nat.div_eq_of_lt hrest, two_pow_eq]
    simp
  · have hk : k = 0 := by
      apply Nat.eq_zero_of_not_pos
      intro hshifted
      exact hleads (hheld.leads hshifted)
    subst hk
    simp only [Nat.zero_mul, Nat.add_zero, Nat.pow_zero, Nat.mul_one]
    rw [units, if_pos (by omega)]

/-- The number of places by which a held number is shifted is told by its leading bit. -/
theorem Held.shift_eq (hheld : format.Held q k) (hprecision : 0 < format.precision) :
    (q * 2 ^ k).log2 + 1 - format.precision = k := by
  have hfits := hheld.fits
  rw [two_mul_hidden hprecision] at hfits
  by_cases hq : q = 0
  · have hk : k = 0 := by
      apply Nat.eq_zero_of_not_pos
      intro hshifted
      have hleads := hheld.leads hshifted
      have hpos := format.hidden_pos
      omega
    subst hq hk
    simp [Nat.log2_zero]
    omega
  · have hne : q * 2 ^ k ≠ 0 := Nat.mul_ne_zero hq (Nat.ne_of_gt (Nat.two_pow_pos k))
    have hupper : (q * 2 ^ k).log2 < format.precision + k := by
      rw [Nat.log2_lt hne, Nat.pow_add]
      exact Nat.mul_lt_mul_of_pos_right hfits (Nat.two_pow_pos k)
    by_cases hk : k = 0
    · omega
    · have hleads := hheld.leads (Nat.pos_of_ne_zero hk)
      have hlower : format.precision - 1 + k ≤ (q * 2 ^ k).log2 := by
        rw [Nat.le_log2 hne, Nat.pow_add]
        exact Nat.mul_le_mul_right _ hleads
      omega

theorem Held.ofRatio_eq (hheld : format.Held q k) (hprecision : 0 < format.precision) {num den : Nat}
    (hden : 0 < den) (hexact : num * 2 ^ format.scale = den * (q * 2 ^ k))
    (hfinite : q + k * format.hidden ≤ format.infinity) :
    format.ofRatio num den = q + k * format.hidden := by
  have hquotient : den * (q * 2 ^ k) / den = q * 2 ^ k := Nat.mul_div_cancel_left _ hden
  have hscaled : den * (q * 2 ^ k) = den * 2 ^ k * q := by
    rw [Nat.mul_comm q, Nat.mul_assoc]
  simp only [ofRatio, two_pow_eq, hexact, hquotient, hheld.shift_eq hprecision]
  rw [hscaled, roundDiv_mul_left q (Nat.mul_pos hden (Nat.two_pow_pos k)), Nat.min_eq_left hfinite]

end Format

theorem Single.magnitude_lt (x : Single) : x.magnitude < Format.single.signWeight :=
  Nat.mod_lt _ (by decide)

theorem Double.ofParts_toNat {magnitude : Nat} (hmagnitude : magnitude < Format.double.signWeight)
    (negative : Bool) :
    (ofParts negative magnitude).bits.toNat =
      magnitude + if negative then Format.double.signWeight else 0 := by
  have hweight : Format.double.signWeight = 9223372036854775808 := by decide
  rw [ofParts, Nat.toUInt64, UInt64.toNat_ofNat']
  apply Nat.mod_eq_of_lt
  rw [hweight] at hmagnitude ⊢
  split <;> omega

theorem Double.isNegative_ofParts {magnitude : Nat} (hmagnitude : magnitude < Format.double.signWeight)
    (negative : Bool) : (ofParts negative magnitude).isNegative = negative := by
  rw [isNegative, ofParts_toNat hmagnitude]
  cases negative with
  | true => simp
  | false => simpa using hmagnitude

theorem Double.magnitude_ofParts {magnitude : Nat} (hmagnitude : magnitude < Format.double.signWeight)
    (negative : Bool) : (ofParts negative magnitude).magnitude = magnitude := by
  rw [Double.magnitude, ofParts_toNat hmagnitude]
  cases negative with
  | true =>
    rw [if_pos rfl, Nat.add_mod_right]
    exact Nat.mod_eq_of_lt hmagnitude
  | false =>
    rw [if_neg Bool.false_ne_true, Nat.add_zero]
    exact Nat.mod_eq_of_lt hmagnitude

theorem Single.ofParts_self (x : Single) : ofParts x.isNegative x.magnitude = x := by
  have hweight : Format.single.signWeight = 2147483648 := by decide
  have hbits := x.bits.toNat_lt
  have hwhole : (x.magnitude + if x.isNegative then Format.single.signWeight else 0) = x.bits.toNat := by
    simp only [Single.magnitude, isNegative, hweight, decide_eq_true_eq]
    split <;> omega
  rw [ofParts, hwhole]
  simp

/-- The magnitude of a finite number in the wider format. -/
theorem exists_wide {m : Nat} (hfinite : m < Format.single.infinity) :
    ∃ q k r l, Format.single.Held q k ∧ m = q + k * Format.single.hidden ∧
      Format.double.Held r l ∧ r * 2 ^ l = q * 2 ^ (k + 925) ∧
      r + l * Format.double.hidden < Format.double.infinity := by
  have hhidden : Format.single.hidden = 8388608 := by decide
  have hwide : Format.double.hidden = 2 ^ 52 := rfl
  have hinfinity : Format.single.infinity = 255 * 8388608 := by decide
  obtain ⟨q, k, hheld, hm⟩ := Format.single.exists_held m
  refine ⟨q, k, ?_⟩
  have hfits := hheld.fits
  rw [hhidden] at hfits hm
  rw [hinfinity] at hfinite
  by_cases hq : q = 0
  · refine ⟨0, 0, hheld, by rw [hhidden, hm], ⟨by decide, nofun⟩, by simp [hq], by decide⟩
  · have hlog : q.log2 < 24 := (Nat.log2_lt hq).mpr (by omega)
    have hlower : 2 ^ q.log2 ≤ q := Nat.log2_self_le hq
    have hupper : q < 2 ^ (q.log2 + 1) := Nat.lt_log2_self
    have hmoved : 2 ^ q.log2 * 2 ^ (52 - q.log2) = 2 ^ 52 := by
      rw [← Nat.pow_add]
      congr 1
      omega
    have hlead : 2 ^ 52 ≤ q * 2 ^ (52 - q.log2) := by
      rw [← hmoved]
      exact Nat.mul_le_mul_right _ hlower
    have hroom : q * 2 ^ (52 - q.log2) < 2 * 2 ^ 52 := by
      rw [← hmoved, ← Nat.mul_assoc]
      apply Nat.mul_lt_mul_of_pos_right _ (Nat.two_pow_pos _)
      rw [Nat.pow_succ] at hupper
      omega
    refine ⟨q * 2 ^ (52 - q.log2), k + 873 + q.log2, hheld, by rw [hhidden, hm],
      ⟨by rw [hwide]; exact hroom, fun _ => by rw [hwide]; exact hlead⟩, ?_, ?_⟩
    · rw [Nat.mul_assoc, ← Nat.pow_add]
      congr 2
      omega
    · have hk : k < 255 := by omega
      have htop : Format.double.infinity = 2047 * 2 ^ 52 := by decide
      rw [hwide, htop]
      have hscale : (k + 873 + q.log2) * 2 ^ 52 ≤ 1150 * 2 ^ 52 := Nat.mul_le_mul_right _ (by omega)
      omega

theorem Single.toDouble_isNegative_magnitude (x : Single) :
    x.toDouble.isNegative = x.isNegative ∧
      x.toDouble.magnitude =
        if x.magnitude < Format.single.infinity then
          Format.double.ofRatio (Format.single.units x.magnitude) (2 ^ Format.single.scale)
        else Format.double.infinity + (x.magnitude - Format.single.infinity) * 2 ^ 29 := by
  have hlt := x.magnitude_lt
  have hfits : (if x.magnitude < Format.single.infinity then
          Format.double.ofRatio (Format.single.units x.magnitude) (2 ^ Format.single.scale)
        else Format.double.infinity + (x.magnitude - Format.single.infinity) * 2 ^ 29)
      < Format.double.signWeight := by
    have htop : Format.double.infinity < Format.double.signWeight := by decide
    split
    · exact Nat.lt_of_le_of_lt (Nat.min_le_right _ _) htop
    · have hweight : Format.double.signWeight = 9223372036854775808 := by decide
      have hinfinity : Format.double.infinity = 9218868437227405312 := by decide
      have hsingle : Format.single.infinity = 2139095040 := by decide
      have hsign : Format.single.signWeight = 2147483648 := by decide
      omega
  exact ⟨Double.isNegative_ofParts hfits _, Double.magnitude_ofParts hfits _⟩

/-- Rounding a widened number gives the number back. -/
theorem Single.toSingle_toDouble (x : Single) : x.toDouble.toSingle = x := by
  obtain ⟨hsign, hmagnitude⟩ := x.toDouble_isNegative_magnitude
  suffices hround : x.toDouble.toSingle = ofParts x.isNegative x.magnitude by
    rw [hround, ofParts_self]
  have hscales : Format.double.scale = Format.single.scale + 925 := by decide
  rw [Double.toSingle, hsign, hmagnitude]
  congr 1
  by_cases hfinite : x.magnitude < Format.single.infinity
  · obtain ⟨q, k, r, l, hheld, hm, hwide, hsame, hbelow⟩ := exists_wide hfinite
    have hout : Format.double.ofRatio (Format.single.units x.magnitude) (2 ^ Format.single.scale) =
        r + l * Format.double.hidden := by
      apply hwide.ofRatio_eq (by decide) (Nat.two_pow_pos _) _ (Nat.le_of_lt hbelow)
      rw [hm, hheld.units_eq, hsame, hscales]
      exact mul_two_pow_add q k _ 925
    have hback : Format.single.ofRatio (Format.double.units (r + l * Format.double.hidden))
        (Nat.pow 2 Format.double.scale) = x.magnitude := by
      rw [hwide.units_eq, hm]
      apply hheld.ofRatio_eq (by decide) (Nat.two_pow_pos _)
      · have hmoved := mul_two_pow_add q k Format.single.scale 925
        rw [hsame, hscales, Nat.mul_comm, ← hmoved, Nat.mul_comm]
      · rw [← hm]
        exact Nat.le_of_lt hfinite
    rw [if_pos hfinite, hout, if_pos hbelow]
    exact hback
  · rw [if_neg hfinite, if_neg (by omega)]
    by_cases hinfinite : x.magnitude = Format.single.infinity
    · rw [hinfinite]
      simp
    · have hpayload : 0 < x.magnitude - Format.single.infinity := by omega
      have hcut : (Format.double.infinity + (x.magnitude - Format.single.infinity) * 2 ^ 29
          - Format.double.infinity) / 2 ^ 29 = x.magnitude - Format.single.infinity := by
        rw [Nat.add_sub_cancel_left, Nat.mul_div_cancel _ (Nat.two_pow_pos 29)]
      have hnan : ¬ Format.double.infinity + (x.magnitude - Format.single.infinity) * 2 ^ 29 =
          Format.double.infinity := by omega
      rw [if_neg hnan]
      simp only [two_pow_eq, hcut, if_neg (Nat.ne_of_gt hpayload)]
      omega

end Offload.Number
