import Calculator.Proofs.Number.Interval

/-!
# The shortest decimal lies in the interval

The grids have more and more digits, so the spaces become smaller, and before there are eighteen the
interval is wider than a space and has a number of the grid inside
(`Ample.exists_within_seventeen`). Of those inside, one is next to the value, and it is enough to
look there (`isSome_nearest?`).
-/

namespace Calculator.Number

/-- The number that a decimal stands for. -/
def Decimal.value (d : Decimal) : ℚ := d.coefficient * 10 ^ d.exponent

namespace Interval

/-- Whether an interval lies around its value, and is not too small for seventeen digits. -/
structure Ample (i : Interval) : Prop where
  denominator_pos : 0 < i.denominator
  low_lt : i.low < i.value
  lt_high : i.value < i.high
  value_lt : i.value < 10 ^ 16 * (i.high - i.low)

theorem ample_ofBinary {m : ℕ} {q : ℤ} {narrow : Bool} (h : FiniteParts m q narrow) :
    (ofBinary m q narrow).Ample := by
  have hunit : 0 < Nat.pow 2 (q - 2).toNat := Nat.two_pow_pos _
  have hm := h.pos
  have hmantissa := h.canonical.mantissa_lt
  refine ⟨Nat.two_pow_pos _, ?_, ?_, ?_⟩
  · refine Nat.mul_lt_mul_of_pos_right ?_ hunit
    split <;> omega
  · exact Nat.mul_lt_mul_of_pos_right (by omega) hunit
  · show 4 * m * _ < 10 ^ 16 * ((4 * m + 2) * _ - (4 * m - if narrow = true then 1 else 2) * _)
    rw [← Nat.sub_mul, ← Nat.mul_assoc]
    refine Nat.mul_lt_mul_of_pos_right ?_ hunit
    cases hnarrow : narrow with
    | true =>
        have := (h.narrow_iff.mp hnarrow).1
        simp only [if_true]
        omega
    | false =>
        simp only [Bool.false_eq_true, if_false]
        omega

/-- What lies between two numbers of an interval lies in it. -/
theorem Within.between {i : Interval} {u v w : ℚ} (hu : i.Within u) (hw : i.Within w)
    (huv : u ≤ v) (hvw : v ≤ w) : i.Within v := by
  have hlow : u * i.denominator ≤ v * i.denominator :=
    mul_le_mul_of_nonneg_right huv (by positivity)
  have hhigh : v * i.denominator ≤ w * i.denominator :=
    mul_le_mul_of_nonneg_right hvw (by positivity)
  unfold Within at hu hw ⊢
  split <;> rename_i hclosed
  · rw [if_pos hclosed] at hu hw
    exact ⟨hu.1.trans hlow, hhigh.trans hw.2⟩
  · rw [if_neg hclosed] at hu hw
    exact ⟨hu.1.trans_le hlow, hhigh.trans_lt hw.2⟩

/-- What lies between the ends lies in the interval, whether or not the ends do. -/
theorem within_of_lt {i : Interval} {v : ℚ} (hlow : (i.low : ℚ) < v * i.denominator)
    (hhigh : v * i.denominator < i.high) : i.Within v := by
  unfold Within
  split
  · exact ⟨hlow.le, hhigh.le⟩
  · exact ⟨hlow, hhigh⟩

/-- Of the whole numbers around the value one is inside, if any is. -/
theorem isSome_nearest? {i : Interval} (hpos : 0 < i.denominator) (hlow : i.low < i.value)
    (hhigh : i.value < i.high) {n : ℕ} (hn : i.Within n) : i.nearest?.isSome = true := by
  have hden : (0 : ℚ) < i.denominator := Nat.cast_pos.mpr hpos
  have hvalue : i.Within (i.value / i.denominator) := by
    refine within_of_lt ?_ ?_ <;> rw [div_mul_cancel₀ _ hden.ne'] <;> exact_mod_cast ‹_›
  have hbelow : ((i.value / i.denominator : ℕ) : ℚ) ≤ i.value / i.denominator := Nat.cast_div_le
  have habove : (i.value : ℚ) / i.denominator ≤ (i.value / i.denominator + 1 : ℕ) := by
    rw [div_le_iff₀ hden]
    exact_mod_cast (Nat.lt_mul_div_succ _ hpos).le.trans_eq (Nat.mul_comm _ _)
  have hcontains : i.contains (i.value / i.denominator) = true ∨
      i.contains (i.value / i.denominator + 1) = true := by
    simp only [contains_iff_within]
    rcases Nat.lt_or_ge (i.value / i.denominator) n with hlt | hge
    · exact .inr (hvalue.between hn habove (by exact_mod_cast hlt))
    · exact .inl (hn.between hvalue (by exact_mod_cast hge) hbelow)
  unfold nearest?
  simp only
  rcases hcontains with h | h <;> rw [h]
  · cases i.contains (i.value / i.denominator + 1)
    · rfl
    · simp only
      split <;> rfl
  · cases i.contains (i.value / i.denominator)
    · rfl
    · simp only
      split <;> rfl

/-- A unit that is smaller than the interval has a multiple inside. -/
theorem exists_within {i : Interval} (hpos : 0 < i.denominator)
    (hwide : i.low + i.denominator < i.high) : ∃ n : ℕ, i.Within n := by
  have habove : i.low < (i.low / i.denominator + 1) * i.denominator :=
    (Nat.lt_mul_div_succ _ hpos).trans_eq (Nat.mul_comm _ _)
  have hnext : (i.low / i.denominator + 1) * i.denominator < i.high := by
    have hbelow : i.low / i.denominator * i.denominator ≤ i.low := Nat.div_mul_le_self _ _
    rw [Nat.add_mul, Nat.one_mul]
    omega
  refine ⟨i.low / i.denominator + 1, within_of_lt ?_ ?_⟩
  · exact_mod_cast habove
  · exact_mod_cast hnext

theorem pow_leadingExponent_le {i : Interval} (hpos : 0 < i.denominator) (hvalue : 0 < i.value) :
    (i.denominator : ℚ) * 10 ^ i.leadingExponent ≤ i.value := by
  unfold leadingExponent
  split
  · rename_i hle
    obtain ⟨k, hk⟩ : ∃ k, (Nat.toDigits 10 (i.value / i.denominator)).length = k + 1 :=
      Nat.exists_eq_succ_of_ne_zero Nat.length_toDigits_pos.ne'
    have hquotient : 10 ^ k ≤ i.value / i.denominator := by
      by_contra hlt
      have hzero : k ≠ 0 := by
        rintro rfl
        exact hlt (Nat.div_pos hle hpos)
      have hlength := (Nat.length_toDigits_le_iff (by decide) (Nat.pos_of_ne_zero hzero)).mpr
        (not_le.mp hlt)
      omega
    rw [hk, Nat.cast_add_one, add_sub_cancel_right, zpow_natCast]
    exact_mod_cast (Nat.mul_le_mul_left _ hquotient).trans (Nat.mul_div_le _ _)
  · have hdigits : (i.denominator - 1) / i.value <
        10 ^ (Nat.toDigits 10 ((i.denominator - 1) / i.value)).length :=
      (Nat.length_toDigits_le_iff (by decide) Nat.length_toDigits_pos).mp le_rfl
    generalize (Nat.toDigits 10 ((i.denominator - 1) / i.value)).length = k at hdigits ⊢
    have hle : i.denominator ≤ i.value * 10 ^ k := by
      rw [Nat.div_lt_iff_lt_mul hvalue, Nat.mul_comm] at hdigits
      omega
    rw [zpow_neg, zpow_natCast, ← div_eq_mul_inv, div_le_iff₀ (by positivity)]
    exact_mod_cast hle

/-- **Seventeen digits are enough**: the grid has a number inside. -/
theorem Ample.exists_within_seventeen {i : Interval} (h : i.Ample) :
    ∃ n : ℕ, (i.inUnits (i.leadingExponent - 16)).Within n := by
  have hlt := h.lt_high
  have hlow := h.low_lt
  have hleading := pow_leadingExponent_le h.denominator_pos (by omega : 0 < i.value)
  generalize i.leadingExponent = top at hleading
  have hden : 0 < i.denominator * Nat.pow 10 (top - 16).toNat :=
    Nat.mul_pos h.denominator_pos (Nat.pow_pos (by decide))
  refine exists_within hden ?_
  have hscale : (0 : ℚ) < 10 ^ (-(top - 16)).toNat := by positivity
  have hwide : (i.denominator : ℚ) * 10 ^ (top - 16) < i.high - i.low := by
    have hvalue : (i.value : ℚ) < 10 ^ 16 * (i.high - i.low) := by
      have := h.value_lt
      rw [← Nat.cast_sub (by omega)]
      exact_mod_cast this
    rw [zpow_sub₀ (by norm_num), ← mul_div_assoc, div_lt_iff₀ (by positivity)]
    calc
      (i.denominator : ℚ) * 10 ^ top ≤ i.value := hleading
      _ < 10 ^ 16 * (i.high - i.low) := hvalue
      _ = (i.high - i.low) * 10 ^ (16 : ℤ) := by rw [zpow_ofNat, mul_comm]
  have hunits : (i.low * 10 ^ (-(top - 16)).toNat + i.denominator * 10 ^ (top - 16).toNat : ℚ) <
      i.high * 10 ^ (-(top - 16)).toNat := by
    rw [← zpow_mul_pow_toNat (by norm_num) (top - 16)]
    have := mul_lt_mul_of_pos_right hwide hscale
    linarith
  exact_mod_cast hunits

theorem Ample.isSome_nearest?_inUnits {i : Interval} (h : i.Ample) {e : ℤ} {n : ℕ}
    (hn : (i.inUnits e).Within n) : (i.inUnits e).nearest?.isSome = true := by
  have hscale : 0 < Nat.pow 10 (-e).toNat := Nat.pow_pos (by decide)
  exact isSome_nearest? (Nat.mul_pos h.denominator_pos (Nat.pow_pos (by decide)))
    (Nat.mul_lt_mul_of_pos_right h.low_lt hscale) (Nat.mul_lt_mul_of_pos_right h.lt_high hscale) hn

/-- **The shortest decimal lies in the interval.** -/
theorem Ample.within_shortest {i : Interval} (h : i.Ample) : i.Within i.shortest.value := by
  obtain ⟨n, hn⟩ := h.exists_within_seventeen
  have hlast := h.isSome_nearest?_inUnits hn
  unfold shortest
  extract_lets top attempt
  have hfound : ((List.range 17).findSome? attempt).isSome = true := by
    rw [List.findSome?_isSome_iff]
    refine ⟨16, by decide, ?_⟩
    rw [Option.isSome_map]
    exact hlast
  obtain ⟨d, hd⟩ := Option.isSome_iff_exists.mp hfound
  obtain ⟨digits, -, hattempt⟩ := List.exists_of_findSome?_eq_some hd
  obtain ⟨k, hk, rfl⟩ := Option.map_eq_some_iff.mp hattempt
  have hinside : i.Within (k * 10 ^ (top - digits)) :=
    within_inUnits_iff.mp (contains_iff_within.mp (contains_of_nearest? hk))
  rw [hd, Option.getD_some]
  split
  · rename_i hten
    have hvalue : ((1 : ℕ) : ℚ) * 10 ^ (top - digits + 1) = k * 10 ^ (top - digits) := by
      rw [hten, zpow_add_one₀ (by norm_num)]
      push_cast
      ring
    rw [Decimal.value, hvalue]
    exact hinside
  · exact hinside

end Interval

end Calculator.Number
