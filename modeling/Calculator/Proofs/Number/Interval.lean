import Calculator.Number.Shortest
import Calculator.Proofs.Number.Parts

/-!
# The interval around a double

The interval is kept in whole numbers over one denominator. Read as numbers, its ends are halfway to
the neighbours of the double (`within_ofBinary_iff`), and measured in other units it is the same
interval (`within_inUnits_iff`).
-/

namespace Calculator.Number

/-- The parts of a finite double that is not zero. -/
structure FiniteParts (m : ℕ) (q : ℤ) (narrow : Bool) : Prop where
  canonical : Canonical m q
  pos : 0 < m
  le_greatest : q ≤ 971
  narrow_iff : narrow = true ↔ m = 2 ^ 52 ∧ -1074 < q

theorem finiteParts_of_view {x : Float} {negative narrow : Bool} {m : ℕ} {q : ℤ}
    (h : view x = ⟨negative, .finite m q narrow⟩) : FiniteParts m q narrow := by
  have hexponent : x.toBits.toNat / Nat.pow 2 52 % Nat.pow 2 11 < 2 ^ 11 := Nat.mod_lt _ (by decide)
  have hfraction : x.toBits.toNat % Nat.pow 2 52 < 2 ^ 52 := Nat.mod_lt _ (by decide)
  have hmagnitude : Magnitude.ofFields (x.toBits.toNat / Nat.pow 2 52 % Nat.pow 2 11)
      (x.toBits.toNat % Nat.pow 2 52) = .finite m q narrow := congrArg View.magnitude h
  generalize x.toBits.toNat / Nat.pow 2 52 % Nat.pow 2 11 = exponent,
    x.toBits.toNat % Nat.pow 2 52 = fraction at hexponent hfraction hmagnitude
  unfold Magnitude.ofFields at hmagnitude
  split at hmagnitude
  · split at hmagnitude <;> cases hmagnitude
  · rename_i hlast
    split at hmagnitude
    · split at hmagnitude
      · cases hmagnitude
      · cases hmagnitude
        exact ⟨⟨by omega, by omega, .inr rfl⟩, by omega, by omega, by simp⟩
    · rename_i hfirst
      cases hmagnitude
      have hpow : Nat.pow 2 52 = 2 ^ 52 := rfl
      refine ⟨⟨by omega, by omega, .inl (by omega)⟩, by omega, by omega, ?_⟩
      rw [decide_eq_true_iff]
      omega

/-- A power of a whole exponent is a fraction of powers of natural ones. -/
theorem zpow_mul_pow_toNat {b : ℚ} (hb : b ≠ 0) (e : ℤ) : b ^ e * b ^ (-e).toNat = b ^ e.toNat := by
  rw [← zpow_natCast, ← zpow_natCast, ← zpow_add₀ hb]
  congr 1
  omega

/-- Whether a number lies in an interval. -/
def Interval.Within (i : Interval) (v : ℚ) : Prop :=
  if i.closed then i.low ≤ v * i.denominator ∧ v * i.denominator ≤ i.high
  else i.low < v * i.denominator ∧ v * i.denominator < i.high

namespace Interval

theorem contains_iff_within {i : Interval} {n : ℕ} : i.contains n = true ↔ i.Within n := by
  simp only [contains, Within]
  split
  · rw [Bool.and_eq_true, decide_eq_true_iff, decide_eq_true_iff]
    norm_cast
  · rw [Bool.and_eq_true, decide_eq_true_iff, decide_eq_true_iff]
    norm_cast

/-- An interval stays the same in other units. -/
theorem within_inUnits_iff {i : Interval} {e : ℤ} {v : ℚ} :
    (i.inUnits e).Within v ↔ i.Within (v * 10 ^ e) := by
  have hscale : (0 : ℚ) < 10 ^ (-e).toNat := by positivity
  have hvalue : v * (i.denominator * 10 ^ e.toNat) =
      v * 10 ^ e * i.denominator * 10 ^ (-e).toNat := by
    rw [← zpow_mul_pow_toNat (by norm_num) e]
    ring
  simp only [Within, inUnits, Nat.pow_eq]
  push_cast
  simp only [hvalue, mul_le_mul_iff_left₀ hscale, mul_lt_mul_iff_left₀ hscale]

/-- Of a double, the mantissa's neighbours in units of the exponent are a half away, or a quarter
where the doubles lie denser. -/
theorem within_ofBinary_iff {m : ℕ} {q : ℤ} {narrow : Bool} {v : ℚ} (hm : 0 < m) :
    (ofBinary m q narrow).Within v ↔
      let w := v / 2 ^ q
      let d : ℚ := if narrow then 1 else 2
      if m % 2 = 0 then 4 * m - d ≤ 4 * w ∧ 4 * w ≤ 4 * m + 2
      else 4 * m - d < 4 * w ∧ 4 * w < 4 * m + 2 := by
  have hunit : (0 : ℚ) < (Nat.pow 2 (q - 2).toNat : ℕ) := by exact_mod_cast Nat.two_pow_pos _
  have hscale : v * (Nat.pow 2 (2 - q).toNat : ℕ) =
      4 * (v / 2 ^ q) * (Nat.pow 2 (q - 2).toNat : ℕ) := by
    have hpow : (2 : ℚ) ^ (2 - q).toNat * 2 ^ q = 4 * 2 ^ (q - 2).toNat := by
      rw [← zpow_natCast, ← zpow_natCast, ← zpow_add₀ two_ne_zero,
        show (4 : ℚ) = 2 ^ (2 : ℤ) by norm_num, ← zpow_add₀ two_ne_zero]
      congr 1
      omega
    simp only [Nat.pow_eq, Nat.cast_pow, Nat.cast_ofNat]
    rw [mul_div_assoc', div_mul_eq_mul_div, eq_div_iff (by positivity), mul_assoc, hpow]
    ring
  have hlow : ((4 * m - if narrow then 1 else 2 : ℕ) : ℚ) = 4 * m - if narrow then 1 else 2 := by
    rw [Nat.cast_sub (by split <;> omega)]
    split <;> simp
  simp only [Interval.Within, Interval.ofBinary, hscale, decide_eq_true_eq, Nat.cast_mul, hlow,
    mul_le_mul_iff_left₀ hunit, mul_lt_mul_iff_left₀ hunit]
  push_cast
  rfl

end Interval

end Calculator.Number
