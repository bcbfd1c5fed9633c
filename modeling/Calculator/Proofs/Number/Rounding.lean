import Calculator.Proofs.Number.Interval

/-!
# What is rounded to a double

Arithmetic keeps, of a number that is no multiple of the unit, the whole multiple below it and two
bits on what is left: on which side of the half it is, and whether it is more than that
(`Represents`). That is enough to round to the nearest multiple. Whatever lies in the interval
around a double is rounded to it (`roundWithAccuracy_of_within`).
-/

namespace Calculator.Number

open Float.Model Float.Model.UnpackedFloat

/-! ## What is kept of a number -/

theorem mantissa_ofMantissaAndAccuracy (n : ℕ) (acc : Accuracy) :
    (ExtendedMantissa.ofMantissaAndAccuracy n acc).mantissa = n := by
  rcases acc with _ | _ | _ | _ <;> rfl

/-- What the bits behind a mantissa say of the number that it was cut from. -/
def Represents (em : ExtendedMantissa) (w : ℚ) : Prop :=
  let halves : ℕ := 2 * em.mantissa + em.roundBit.toNat
  if em.stickyBit then halves < 2 * w ∧ 2 * w < halves + 1 else 2 * w = halves

/-- Whether `m` is the whole number nearest to `w`, where a half goes to an even one. -/
def Near (m : ℕ) (w : ℚ) : Prop :=
  if m % 2 = 0 then 2 * m - 1 ≤ 2 * w ∧ 2 * w ≤ 2 * m + 1
  else 2 * m - 1 < 2 * w ∧ 2 * w < 2 * m + 1

theorem Near.bounds {m : ℕ} {w : ℚ} (h : Near m w) : 2 * m - 1 ≤ 2 * w ∧ 2 * w ≤ 2 * m + 1 := by
  unfold Near at h
  split at h
  · exact h
  · exact ⟨h.1.le, h.2.le⟩

theorem Near.bounds_of_odd {m : ℕ} {w : ℚ} (h : Near m w) (hodd : m % 2 = 1) :
    2 * m - 1 < 2 * w ∧ 2 * w < 2 * m + 1 := by
  rwa [Near, if_neg (by omega)] at h

theorem represents_exact (n : ℕ) : Represents (.ofMantissaAndAccuracy n .exact) n := by
  simp [Represents, ExtendedMantissa.ofMantissaAndAccuracy]

/-- What is left of a division says where the quotient is. -/
theorem represents_accuracyOfFraction (a : ℕ) {b : ℕ} (hb : 0 < b) :
    Represents (.ofMantissaAndAccuracy (a / b) (accuracyOfFraction (a % b) b)) (a / b) := by
  have hsplit : (a : ℚ) = b * (a / b : ℕ) + (a % b : ℕ) := by
    exact_mod_cast (Nat.div_add_mod a b).symm
  have hrest : a % b < b := Nat.mod_lt a hb
  have hb : (0 : ℚ) < b := Nat.cast_pos.mpr hb
  generalize a / b = n, a % b = r at hsplit hrest
  have hquotient : (2 : ℚ) * (a / b) = 2 * n + 2 * r / b := by
    rw [hsplit]
    field_simp
  unfold accuracyOfFraction
  split
  · rename_i hzero
    rw [hsplit, hzero, Nat.cast_zero, add_zero, mul_div_cancel_left₀ _ hb.ne']
    exact represents_exact n
  · rename_i hzero
    have hpositive : (0 : ℚ) < 2 * r / b := by positivity
    have hless : (2 : ℚ) * r / b < 2 := by
      have hrest : (r : ℚ) < b := Nat.cast_lt.mpr hrest
      rw [div_lt_iff₀ hb]
      linarith
    rcases h : compare (2 * r) b with _ | _ | _
    · have hbelow : (2 : ℚ) * r / b < 1 := by
        rw [div_lt_one hb]
        exact_mod_cast Nat.compare_eq_lt.mp h
      show Represents ⟨n, false, true⟩ _
      simp only [Represents, if_true, hquotient, Bool.toNat_false]
      push_cast
      constructor <;> linarith
    · have hhalf : (2 : ℚ) * r / b = 1 := by
        rw [div_eq_one_iff_eq hb.ne']
        exact_mod_cast Nat.compare_eq_eq.mp h
      show Represents ⟨n, true, false⟩ _
      simp only [Represents, Bool.false_eq_true, if_false, hquotient, hhalf, Bool.toNat_true]
      push_cast
      rfl
    · have habove : 1 < (2 : ℚ) * r / b := by
        rw [one_lt_div hb]
        exact_mod_cast Nat.compare_eq_gt.mp h
      show Represents ⟨n, true, true⟩ _
      simp only [Represents, if_true, hquotient, Bool.toNat_true]
      push_cast
      constructor <;> linarith

namespace Represents

variable {em : ExtendedMantissa} {w : ℚ} (h : Represents em w)

include h

/-- The mantissa is what is cut off. -/
theorem mantissa_le : (em.mantissa : ℚ) ≤ w ∧ w < em.mantissa + 1 := by
  obtain ⟨n, r, s⟩ := em
  cases r <;> cases s <;> simp [Represents] at h ⊢ <;> constructor <;> linarith

/-- A bit that is shifted out decides on which side of the half the number is. -/
theorem shiftRightOne : Represents em.shiftRightOne (w / 2) := by
  obtain ⟨n, r, s⟩ := em
  have hbits : 2 * (n / 2) + (n % 2 != 0).toNat = n := by
    rcases Nat.mod_two_eq_zero_or_one n with hbit | hbit <;> simp [hbit] <;> omega
  have hhalf : 2 * (w / 2) = w := by ring
  simp only [Represents, ExtendedMantissa.shiftRightOne, hbits, hhalf]
  cases r <;> cases s <;> simp [Represents] at h ⊢ <;> first | linarith | (constructor <;> linarith)

theorem shiftRight (k : ℕ) : Represents (em >>> k) (w / 2 ^ k) := by
  show Represents (k.repeat ExtendedMantissa.shiftRightOne em) _
  induction k with
  | zero =>
      rw [pow_zero, div_one]
      exact h
  | succ k ih =>
      rw [pow_succ, ← div_div]
      exact ih.shiftRightOne

/-- What is kept is enough to find the nearest whole number. -/
theorem roundedMantissa {m : ℕ} (hm : Near m w) : em.roundedMantissa = m := by
  obtain ⟨hlow, hhigh⟩ := hm.bounds
  obtain ⟨n, r, s⟩ := em
  cases s with
  | true =>
      -- strictly between two halves, the nearest is that in which one of them ends
      simp only [Represents, if_true] at h
      have hle : 2 * n + r.toNat < 2 * m + 1 := by
        exact_mod_cast h.1.trans_le hhigh
      have hge : 2 * m < 2 * n + r.toNat + 2 := by
        have : (2 * m - 1 : ℚ) < ((2 * n + r.toNat : ℕ) : ℚ) + 1 := hlow.trans_lt h.2
        have : (2 * m : ℚ) < (2 * n + r.toNat : ℕ) + 2 := by linarith
        exact_mod_cast this
      cases r <;> simp only [Bool.toNat_true, Bool.toNat_false] at hle hge <;>
        simp only [ExtendedMantissa.roundedMantissa, ExtendedMantissa.accuracy,
          Accuracy.roundToNearestEven] <;> omega
  | false =>
      simp only [Represents, if_neg Bool.false_ne_true] at h
      -- a half is nearest to the even one of its neighbours
      have hle : 2 * n + r.toNat ≤ 2 * m + 1 ∧ (m % 2 = 1 → 2 * n + r.toNat < 2 * m + 1) := by
        constructor
        · exact_mod_cast h ▸ hhigh
        · intro hodd
          exact_mod_cast h ▸ (hm.bounds_of_odd hodd).2
      have hge : 2 * m ≤ 2 * n + r.toNat + 1 ∧ (m % 2 = 1 → 2 * m < 2 * n + r.toNat + 1) := by
        constructor
        · exact_mod_cast h ▸ sub_le_iff_le_add.mp hlow
        · intro hodd
          exact_mod_cast h ▸ sub_lt_iff_lt_add.mp (hm.bounds_of_odd hodd).1
      cases r <;> simp only [Bool.toNat_true, Bool.toNat_false] at hle hge <;>
        simp only [ExtendedMantissa.roundedMantissa, ExtendedMantissa.accuracy,
          Accuracy.roundToNearestEven] <;> omega

end Represents

/-! ## Rounding -/

theorem mantissa_shiftRight (em : ExtendedMantissa) (k : ℕ) :
    (em >>> k).mantissa = em.mantissa / 2 ^ k := by
  show (k.repeat ExtendedMantissa.shiftRightOne em).mantissa = _
  induction k with
  | zero =>
      rw [pow_zero, Nat.div_one]
      rfl
  | succ k ih =>
      rw [pow_succ, ← Nat.div_div_eq_div_mul, ← ih]
      rfl

/-- Where enough bits of a number are kept, its mantissa in the unit that its size asks for is what
is left of them. -/
theorem exists_canonical_div {n : ℕ} {e r : ℤ} {acc : Accuracy} {v : ℚ}
    (hrep : Represents (.ofMantissaAndAccuracy n acc) (v / 2 ^ e)) (hbits : e ≤ -1074 ∨ 2 ^ 52 ≤ n)
    (hleast : -1074 ≤ r) (hsize : v / 2 ^ r < 2 ^ 53) (hfull : 2 ^ 52 ≤ v / 2 ^ r ∨ r = -1074) :
    ∃ k : ℕ, e = r - k ∧ v / 2 ^ e / 2 ^ k = v / 2 ^ r ∧ Canonical (n / 2 ^ k) r := by
  have hle : e ≤ r := by
    rcases hbits with hbits | hbits
    · omega
    · -- in a unit that is twice as large, it would have more bits
      by_contra hlt
      obtain ⟨d, hd⟩ := Int.le.dest (show r + 1 ≤ e by omega)
      have hn : (2 : ℚ) ^ 52 ≤ v / 2 ^ e := by
        have hmantissa := hrep.mantissa_le.1
        rw [mantissa_ofMantissaAndAccuracy] at hmantissa
        exact le_trans (by exact_mod_cast hbits) hmantissa
      have hscale : v / 2 ^ r = v / 2 ^ e * (2 * 2 ^ d) := by
        rw [← hd, zpow_add₀ two_ne_zero, zpow_add₀ two_ne_zero, zpow_one, zpow_natCast]
        field_simp
      have hone : (1 : ℚ) ≤ 2 ^ d := one_le_pow₀ one_le_two
      nlinarith
  obtain ⟨k, hk⟩ := Int.le.dest hle
  have hscale : v / 2 ^ e / 2 ^ k = v / 2 ^ r := by
    rw [div_div, ← hk, zpow_add₀ two_ne_zero, zpow_natCast]
  have hmantissa := (hrep.shiftRight k).mantissa_le
  rw [mantissa_shiftRight, mantissa_ofMantissaAndAccuracy, hscale] at hmantissa
  refine ⟨k, by omega, hscale, ?_, hleast, hfull.imp_left fun hfull => ?_⟩
  · exact_mod_cast hmantissa.1.trans_lt hsize
  · exact Nat.lt_succ_iff.mp (by exact_mod_cast hfull.trans_lt hmantissa.2)

/-- A number that is nearest to `2 ^ j * m` units, in the unit `2 ^ r` that its size asks for, is
rounded to that many; then what was gained is shifted out again. -/
theorem roundWithAccuracy_of_near {m n j : ℕ} {q r e : ℤ} {acc : Accuracy} {v : ℚ}
    (h : Canonical m q) (hm : 0 < m) (hr : r = q - j)
    (hrep : Represents (.ofMantissaAndAccuracy n acc) (v / 2 ^ e)) (hbits : e ≤ -1074 ∨ 2 ^ 52 ≤ n)
    (hleast : -1074 ≤ r) (hsize : v / 2 ^ r < 2 ^ 53) (hfull : 2 ^ 52 ≤ v / 2 ^ r ∨ r = -1074)
    (hnear : Near (2 ^ j * m) (v / 2 ^ r)) (s : Sign) :
    roundWithAccuracy .binary64 s n e acc = .finite s m q hm := by
  obtain ⟨k, rfl, hscale, hfirst⟩ := exists_canonical_div hrep hbits hleast hsize hfull
  have hround : (ExtendedMantissa.ofMantissaAndAccuracy n acc >>> k).roundedMantissa = 2 ^ j * m :=
    (hrep.shiftRight k).roundedMantissa (by rwa [hscale])
  have hshift : (r - (r - (k : ℤ))).toNat = k := by omega
  have hback : r - (k : ℤ) + k = r := by omega
  have hagain := shiftToTargetExponent_of_canonical h j
  rw [← hr] at hagain
  rw [roundWithAccuracy, shiftToTargetExponent, hfirst.targetExponent]
  simp only [shiftToExponent, hshift, hback, hround, hagain]
  rw [dif_neg hm.ne']

/-! ## The interval around a double -/

theorem near_of_within {m : ℕ} {q : ℤ} {narrow : Bool} {v : ℚ} (hm : 0 < m)
    (h : (Interval.ofBinary m q narrow).Within v) : Near m (v / 2 ^ q) := by
  have hd : (if narrow then 1 else 2 : ℚ) ≤ 2 := by split <;> norm_num
  rw [Interval.within_ofBinary_iff hm] at h
  simp only [Near] at h ⊢
  split <;> rename_i heven
  · rw [if_pos heven] at h
    constructor <;> linarith
  · rw [if_neg heven] at h
    constructor <;> linarith

/-- Unless it lies below a power of two, the mantissa of a number in the interval around a double is
as long as that of the double. -/
theorem full_of_within {m : ℕ} {q : ℤ} {narrow : Bool} {v : ℚ} (h : FiniteParts m q narrow)
    (hv : (Interval.ofBinary m q narrow).Within v) (hdense : ¬ (narrow = true ∧ v / 2 ^ q < m)) :
    2 ^ 52 ≤ v / 2 ^ q ∨ q = -1074 := by
  refine or_iff_not_imp_right.mpr fun hq => ?_
  have hge : 2 ^ 52 ≤ m := h.canonical.full.resolve_right hq
  rcases eq_or_lt_of_le hge with hleast | hlt
  · have hq' := h.canonical.least_le
    have hnarrow : narrow = true := h.narrow_iff.mpr ⟨hleast.symm, by omega⟩
    have hle : (m : ℚ) ≤ v / 2 ^ q := not_lt.mp fun hbelow => hdense ⟨hnarrow, hbelow⟩
    exact le_trans (by exact_mod_cast hge) hle
  · have hlower := (near_of_within h.pos hv).bounds.1
    have hmantissa : (2 : ℚ) ^ 52 + 1 ≤ m := by exact_mod_cast hlt
    linarith

/-- **What lies in the interval around a double is rounded to it.** -/
theorem roundWithAccuracy_of_within {m n : ℕ} {q e : ℤ} {narrow : Bool} {acc : Accuracy} {v : ℚ}
    (h : FiniteParts m q narrow) (hv : (Interval.ofBinary m q narrow).Within v)
    (hrep : Represents (.ofMantissaAndAccuracy n acc) (v / 2 ^ e)) (hbits : e ≤ -1074 ∨ 2 ^ 52 ≤ n)
    (s : Sign) : roundWithAccuracy .binary64 s n e acc = .finite s m q h.pos := by
  have hcanonical := h.canonical
  have hnear := near_of_within h.pos hv
  by_cases hdense : narrow = true ∧ v / 2 ^ q < m
  · -- just below a power of two the unit is half as large
    obtain ⟨rfl, hbelow⟩ := hdense
    obtain ⟨rfl, hq⟩ := h.narrow_iff.mp rfl
    have hlow : 4 * (2 ^ 52 : ℕ) - 1 ≤ 4 * (v / 2 ^ q) :=
      ((Interval.within_ofBinary_iff h.pos).mp hv).1
    have hhalf : v / 2 ^ (q - 1) = 2 * (v / 2 ^ q) := by
      rw [zpow_sub_one₀ two_ne_zero]
      field_simp
    push_cast at hlow hbelow
    refine roundWithAccuracy_of_near (j := 1) hcanonical h.pos rfl hrep hbits (by omega) ?_ ?_ ?_ s
    all_goals rw [Nat.cast_one, hhalf]
    · linarith
    · exact .inl (by linarith)
    · rw [Near, if_pos (by norm_num)]
      push_cast
      constructor <;> linarith
  · have hmantissa : (m : ℚ) + 1 ≤ 2 ^ 53 := by exact_mod_cast hcanonical.mantissa_lt
    have hsize : v / 2 ^ q < 2 ^ 53 := by linarith [hnear.bounds.2]
    refine roundWithAccuracy_of_near (j := 0) hcanonical h.pos (by rw [Nat.cast_zero, sub_zero])
      hrep hbits hcanonical.least_le hsize (full_of_within h hv hdense) ?_ s
    rwa [pow_zero, Nat.one_mul]

end Calculator.Number
