import Calculator.Number.Literal
import Calculator.Proofs.Number.Rounding

/-!
# The double nearest to a decimal

A decimal is read by an exact product or quotient that is rounded once, so what lies in the interval
around a double is read as that (`nearestFloat_of_within`). If its digits and its power of ten are
doubles themselves, theirs are taken; otherwise they are kept as whole numbers. Either way the
number that is rounded has enough bits.
-/

namespace Calculator.Number

open Float.Model Float.Model.UnpackedFloat

/-! ## Products and quotients -/

variable {m : ℕ} {q : ℤ} {narrow : Bool} {v : ℚ}

theorem mul_of_within (h : FiniteParts m q narrow) (hv : (Interval.ofBinary m q narrow).Within v)
    {a b : ℕ} {d e : ℤ} (ha : 0 < a) (hb : 0 < b) (heq : v = a * 2 ^ d * (b * 2 ^ e))
    (hbits : 2 ^ 52 ≤ a * b) :
    UnpackedFloat.mul .binary64 (.finite .positive a d ha) (.finite .positive b e hb) =
      .finite .positive m q h.pos := by
  have hscale : v / 2 ^ (d + e) = (a * b : ℕ) := by
    rw [heq, zpow_add₀ two_ne_zero]
    push_cast
    field_simp
  refine roundWithAccuracy_of_within h hv ?_ (.inr hbits) _
  rw [hscale]
  exact represents_exact _

/-- The exponent that a quotient is calculated at is the least, or it leaves it enough bits. -/
theorem divCore_bits {a b : ℕ} (ha : 0 < a) (hb : 0 < b) (d e : ℤ) :
    let (n, r, _) := divCore .binary64 a d b e
    r ≤ -1074 ∨ 2 ^ 52 ≤ n := by
  have htarget : Format.binary64.targetExponent (totalExponent a d - totalExponent b e) =
      max (a.log2 + 1 + d - (b.log2 + 1 + e) - 53) (-1074) := rfl
  simp only [divCore, htarget]
  generalize hr : min (d - e) _ = r
  refine or_iff_not_imp_left.mpr fun hr' => ?_
  rw [Nat.le_div_iff_mul_le hb, Nat.shiftLeft_eq]
  have hshift : b.log2 + 53 ≤ a.log2 + (d - e - r).toNat := by omega
  calc
    2 ^ 52 * b ≤ 2 ^ 52 * 2 ^ (b.log2 + 1) := Nat.mul_le_mul_left _ Nat.lt_log2_self.le
    _ = 2 ^ (b.log2 + 53) := by rw [← pow_add, add_comm, add_assoc]
    _ ≤ 2 ^ (a.log2 + (d - e - r).toNat) := Nat.pow_le_pow_right (by decide) hshift
    _ = 2 ^ a.log2 * 2 ^ (d - e - r).toNat := pow_add _ _ _
    _ ≤ a * 2 ^ (d - e - r).toNat := Nat.mul_le_mul_right _ (Nat.log2_self_le ha.ne')

theorem div_of_within (h : FiniteParts m q narrow) (hv : (Interval.ofBinary m q narrow).Within v)
    {a b : ℕ} {d e : ℤ} (ha : 0 < a) (hb : 0 < b) (heq : v = a * 2 ^ d / (b * 2 ^ e)) :
    UnpackedFloat.div .binary64 (.finite .positive a d ha) (.finite .positive b e hb) =
      .finite .positive m q h.pos := by
  have hbits := divCore_bits ha hb d e
  simp only [UnpackedFloat.div]
  simp only [divCore] at hbits ⊢
  generalize hr : min (d - e) _ = r at hbits ⊢
  have hle : r ≤ d - e := by rw [← hr]; exact min_le_left _ _
  refine roundWithAccuracy_of_within h hv ?_ hbits _
  have hscale : v / 2 ^ r = ((a <<< (d - e - r).toNat : ℕ) : ℚ) / b := by
    obtain ⟨k, hk⟩ := Int.le.dest hle
    have hshift : (d - e - r).toNat = k := by omega
    have hd : d = e + r + k := by omega
    rw [heq, hshift, Nat.shiftLeft_eq, hd, zpow_add₀ two_ne_zero, zpow_add₀ two_ne_zero,
      zpow_natCast]
    push_cast
    field_simp
  rw [hscale]
  exact represents_accuracyOfFraction _ hb

/-! ## Decimals written out -/

/-- A number that is rounded to a double above zero is neither too large nor too small to be looked
at. -/
theorem bounds_of_within (h : FiniteParts m q narrow)
    (hv : (Interval.ofBinary m q narrow).Within v) : 2 ^ (-1075 : ℤ) ≤ v ∧ v < 2 ^ 1024 := by
  have hnear := (near_of_within h.pos hv).bounds
  have hunit : (0 : ℚ) < 2 ^ q := zpow_pos two_pos q
  have hlow : (1 : ℚ) / 2 ≤ v / 2 ^ q := by
    have : (1 : ℚ) ≤ m := by exact_mod_cast h.pos
    linarith
  have hhigh : v / 2 ^ q < 2 ^ 53 := by
    have : (m : ℚ) + 1 ≤ 2 ^ 53 := by exact_mod_cast h.canonical.mantissa_lt
    linarith
  rw [le_div_iff₀ hunit] at hlow
  rw [div_lt_iff₀ hunit] at hhigh
  have hleast : (2 : ℚ) ^ (-1074 : ℤ) ≤ 2 ^ q :=
    zpow_le_zpow_right₀ one_le_two h.canonical.least_le
  have hgreatest : (2 : ℚ) ^ q ≤ 2 ^ (971 : ℤ) := zpow_le_zpow_right₀ one_le_two h.le_greatest
  constructor
  · calc
      (2 : ℚ) ^ (-1075 : ℤ) = 1 / 2 * 2 ^ (-1074 : ℤ) := by
        rw [show (-1075 : ℤ) = -1 + -1074 by rfl, zpow_add₀ two_ne_zero]
        norm_num
      _ ≤ 1 / 2 * 2 ^ q := by linarith
      _ ≤ v := hlow
  · calc
      v < 2 ^ 53 * 2 ^ q := hhigh
      _ ≤ 2 ^ 53 * 2 ^ (971 : ℤ) := by linarith
      _ = 2 ^ 1024 := by rw [zpow_ofNat, ← pow_add]

theorem coefficient_ne_zero (h : FiniteParts m q narrow) {c : ℕ} {e : ℤ}
    (hv : (Interval.ofBinary m q narrow).Within (c * 10 ^ e)) : c ≠ 0 := by
  rintro rfl
  have hlow := (bounds_of_within h hv).1
  have hleast : (0 : ℚ) < 2 ^ (-1075 : ℤ) := zpow_pos two_pos _
  rw [Nat.cast_zero, zero_mul] at hlow
  exact hleast.not_ge hlow

theorem ofScientific_of_within (h : FiniteParts m q narrow) {c : ℕ} {e : ℤ}
    (hv : (Interval.ofBinary m q narrow).Within (c * 10 ^ e)) :
    UnpackedFloat.ofScientific .binary64 c e = .finite .positive m q h.pos := by
  obtain ⟨hlow, hhigh⟩ := bounds_of_within h hv
  have hc : c ≠ 0 := coefficient_ne_zero h hv
  have hone : (1 : ℚ) ≤ c := by exact_mod_cast Nat.one_le_iff_ne_zero.mpr hc
  have hgreat : ¬ e > 2 ^ Format.binary64.exponentBits := by
    intro he
    have he : 1024 ≤ e := by
      have : (2 : ℤ) ^ Format.binary64.exponentBits = 2048 := rfl
      omega
    have hten : (2 : ℚ) ^ 1024 ≤ 10 ^ e := by
      calc
        (2 : ℚ) ^ 1024 ≤ 10 ^ 1024 := pow_le_pow_left₀ zero_le_two (by norm_num) _
        _ = 10 ^ (1024 : ℤ) := (zpow_ofNat _ _).symm
        _ ≤ 10 ^ e := zpow_le_zpow_right₀ (by norm_num) he
    exact hhigh.not_ge (hten.trans (le_mul_of_one_le_left (by positivity) hone))
  have hsmall : ¬ e < -((2 ^ Format.binary64.exponentBits : ℤ) + c.log2) := by
    intro he
    have he : e ≤ -((c.log2 + 1 + 1075 : ℕ) : ℤ) := by
      have : (2 : ℤ) ^ Format.binary64.exponentBits = 2048 := rfl
      omega
    have hlt : (c : ℚ) < 2 ^ (c.log2 + 1) := by exact_mod_cast Nat.lt_log2_self
    have hten : (10 : ℚ) ^ e ≤ (2 ^ (c.log2 + 1 + 1075))⁻¹ := by
      calc
        (10 : ℚ) ^ e ≤ 10 ^ (-((c.log2 + 1 + 1075 : ℕ) : ℤ)) :=
          zpow_le_zpow_right₀ (by norm_num) he
        _ = (10 ^ (c.log2 + 1 + 1075))⁻¹ := by rw [zpow_neg, zpow_natCast]
        _ ≤ (2 ^ (c.log2 + 1 + 1075))⁻¹ :=
          inv_anti₀ (by positivity) (pow_le_pow_left₀ zero_le_two (by norm_num) _)
    refine hlow.not_gt ?_
    calc
      (c : ℚ) * 10 ^ e < 2 ^ (c.log2 + 1) * 10 ^ e := mul_lt_mul_of_pos_right hlt (by positivity)
      _ ≤ 2 ^ (c.log2 + 1) * (2 ^ (c.log2 + 1 + 1075))⁻¹ :=
        mul_le_mul_of_nonneg_left hten (by positivity)
      _ = 2 ^ (-1075 : ℤ) := by
        rw [pow_add _ (c.log2 + 1), zpow_neg, zpow_ofNat]
        field_simp
  simp only [UnpackedFloat.ofScientific]
  rw [dif_neg hc, if_neg hgreat, if_neg hsmall]
  split
  · rename_i hpos
    obtain ⟨p, rfl⟩ := Int.eq_ofNat_of_zero_le hpos
    have hbits : Format.binary64.mantissaBits = 53 := rfl
    refine mul_of_within h hv _ _ ?_ ?_
    · rw [hbits, Nat.shiftLeft_eq, zpow_natCast, Int.toNat_natCast, zpow_neg, zpow_natCast,
        zpow_zero]
      push_cast
      field_simp
      norm_num
    · rw [hbits, Nat.shiftLeft_eq]
      have hle : 2 ^ 52 ≤ c * 2 ^ 53 := by omega
      exact hle.trans (Nat.le_mul_of_pos_right _ (Nat.pow_pos (by decide)))
  · rename_i hneg
    obtain ⟨p, rfl⟩ := Int.exists_eq_neg_ofNat (not_le.mp hneg).le
    refine div_of_within h hv _ _ ?_
    rw [Int.neg_neg, Int.toNat_natCast, zpow_neg, zpow_natCast, zpow_zero]
    push_cast
    field_simp

/-! ## Doubles put together -/

/-- What is put together of the parts of a double is taken apart into them. -/
theorem unpack_pack_finite (h : Canonical m q) (hm : 0 < m) (hgreatest : q ≤ 971) (s : Sign) :
    UnpackedFloat.unpack .binary64 (UnpackedFloat.pack .binary64 (.finite s m q hm)) =
      .finite s m q hm := by
  obtain ⟨hlt, hleast, hfull⟩ := h
  have hbias : Format.binary64.exponentBias = 1023 := rfl
  have hbits : Format.binary64.mantissaBits = 53 := rfl
  have hpow : 2 ^ Format.binary64.exponentBits = 2048 := rfl
  simp only [UnpackedFloat.pack, hbias, hbits, hpow]
  generalize hb : (q + (1023 : ℕ) + (52 : ℕ)).toNat = b
  have hb : (b : ℤ) = q + 1075 := by omega
  rw [if_neg (by omega)]
  have hexponent : (BitVec.ofNat 11 b).toNat = b := by
    rw [BitVec.toNat_ofNat, Nat.mod_eq_of_lt (by omega)]
  have hlast : BitVec.ofNat 11 b ≠ -1#11 := by
    rw [ne_eq, ← BitVec.toNat_inj, hexponent]
    show ¬ b = 2047
    omega
  by_cases hn : 2 ^ 52 ≤ m
  · have hfirst : BitVec.ofNat 11 b ≠ 0#11 := by
      rw [ne_eq, ← BitVec.toNat_inj, hexponent]
      show ¬ b = 0
      omega
    have hlog : m.log2 = 52 := (Nat.log2_eq_iff hm.ne').mpr ⟨hn, hlt⟩
    have hmantissa : (1#1 ++ BitVec.ofNat 52 m).toNat = m := by
      rw [BitVec.toNat_append, ← Nat.shiftLeft_add_eq_or_of_lt (BitVec.isLt _), BitVec.toNat_ofNat]
      show 2 ^ 52 + m % 2 ^ 52 = m
      omega
    rw [if_pos (by rw [hlog])]
    simp only [UnpackedFloat.unpack, unpackMantissa_packComponents, unpackExponent_packComponents,
      unpackSign_packComponents, Sign.ofBitVec_toBitVec]
    rw [if_neg hlast, if_neg hfirst]
    congr 1
    rw [hexponent, hbias]
    show (b : ℤ) - (1023 + 52) = q
    omega
  · have hlog : ¬ m.log2 + 1 = 53 := by
      have := (Nat.log2_lt hm.ne').mpr (not_le.mp hn)
      omega
    have hmantissa : (BitVec.ofNat 52 m).toNat = m := by
      rw [BitVec.toNat_ofNat, Nat.mod_eq_of_lt (not_le.mp hn)]
    have hnonzero : BitVec.ofNat 52 m ≠ 0#52 := by
      rw [ne_eq, ← BitVec.toNat_inj, hmantissa]
      exact hm.ne'
    rw [if_neg hlog]
    simp only [UnpackedFloat.unpack, unpackMantissa_packComponents, unpackExponent_packComponents,
      unpackSign_packComponents, Sign.ofBitVec_toBitVec]
    rw [if_neg (by decide), if_pos trivial, dif_neg hnonzero]
    congr 1
    exact (hfull.resolve_left hn).symm

/-! ## Digits and powers of ten that are doubles -/

/-- Whether a double is a number above zero, with a mantissa that has all its bits. -/
def Exactly (x : Float) (v : ℚ) : Prop :=
  ∃ a d, ∃ ha : 0 < a, x.toModel.unpack = .finite .positive a d ha ∧ 2 ^ 52 ≤ a ∧ v = a * 2 ^ d

/-- Whether a magnitude is a power of ten, with a mantissa that has all its bits. -/
def Magnitude.isPower (e : ℕ) : Magnitude → Bool
  | .finite a d _ => 2 ^ 52 ≤ a && a * 2 ^ d.toNat == 10 ^ e * 2 ^ (-d).toNat
  | .zero | .infinite | .nan => false

theorem exactly_of_isPower {x : Float} {e : ℕ} (hsign : (view x).negative = false)
    (h : (view x).magnitude.isPower e = true) : Exactly x (10 ^ e) := by
  have hparts := unpacks_view x
  generalize view x = v, hu : x.toModel.unpack = u at hsign h hparts
  cases hparts with
  | zero => cases h
  | infinite => cases h
  | nan => cases h
  | @finite negative narrow a d ha _ =>
      cases hsign
      simp only [Magnitude.isPower, Bool.and_eq_true, decide_eq_true_eq, beq_iff_eq] at h
      obtain ⟨hbits, heq⟩ := h
      have heq : (a : ℚ) * 2 ^ d.toNat = 10 ^ e * 2 ^ (-d).toNat := by exact_mod_cast heq
      refine ⟨a, d, ha, hu, hbits, ?_⟩
      have hpos : (0 : ℚ) < 2 ^ (-d).toNat := by positivity
      rw [← mul_left_inj' hpos.ne', mul_assoc, zpow_mul_pow_toNat two_ne_zero, heq]

/-- The powers of ten that are known beforehand are what they are named for. -/
theorem isPower_power : ∀ e : Fin Float.exactlyRepresentablePowersOfTen.size,
    let x := Float.exactlyRepresentablePowersOfTen[e]
    (view x).negative = false ∧ (view x).magnitude.isPower e = true := by
  decide +kernel

theorem exactly_power (e : ℕ) (he : e < Float.exactlyRepresentablePowersOfTen.size) :
    Exactly Float.exactlyRepresentablePowersOfTen[e] (10 ^ e) :=
  exactly_of_isPower (isPower_power ⟨e, he⟩).1 (isPower_power ⟨e, he⟩).2

/-- A whole number with no more bits than a mantissa is a double. -/
theorem exactly_toFloat {c : ℕ} (hc : c ≠ 0) (hlt : c < 2 ^ 53) : Exactly c.toUInt64.toFloat c := by
  have hlog : c.log2 ≤ 52 := Nat.lt_succ_iff.mp ((Nat.log2_lt hc).mpr hlt)
  have hnat : c.toUInt64.toNat = c := by
    show (UInt64.ofNat c).toNat = c
    rw [UInt64.toNat_ofNat', Nat.mod_eq_of_lt (by omega)]
  obtain ⟨k, hk⟩ := Nat.le.dest hlog
  have htarget : Format.binary64.targetExponent (totalExponent c 0) = -k := by
    show max ((c.log2 : ℤ) + 1 + 0 - 53) (-1074) = -k
    omega
  have hfull : 2 ^ 52 ≤ c <<< k := by
    rw [Nat.shiftLeft_eq, ← hk, pow_add]
    exact Nat.mul_le_mul_right _ (Nat.log2_self_le hc)
  have hless : c <<< k < 2 ^ 53 := by
    rw [Nat.shiftLeft_eq, show 53 = c.log2 + 1 + k by omega, pow_add _ _ k]
    exact Nat.mul_lt_mul_of_pos_right Nat.lt_log2_self (Nat.two_pow_pos k)
  have hcanonical : Canonical (c <<< k) (-k) := ⟨hless, by omega, .inl hfull⟩
  have hpos : 0 < c <<< k := by omega
  have hround : UnpackedFloat.ofUInt64 .binary64 c.toUInt64 =
      .finite .positive (c <<< k) (-k) hpos := by
    have hround := roundWithAccuracy_of_canonical hcanonical hpos 0 .positive
    rw [pow_zero, Nat.one_mul, Nat.cast_zero, sub_zero] at hround
    have hcompare : compare (c : ℤ) 0 = .gt :=
      compare_gt_iff_gt.mpr (Int.natCast_pos.mpr (Nat.pos_of_ne_zero hc))
    rw [UnpackedFloat.ofUInt64, hnat, UnpackedFloat.ofNat, UnpackedFloat.ofInt,
      UnpackedFloat.normalize, hcompare]
    simp only [UnpackedFloat.round, htarget, decreaseExponent, zero_sub, neg_neg, Int.toNat_natCast,
      hround]
  refine ⟨c <<< k, -k, hpos, ?_, hfull, ?_⟩
  · show UnpackedFloat.unpack .binary64 (UnpackedFloat.pack .binary64 (.ofUInt64 _ c.toUInt64)) = _
    rw [hround, unpack_pack_finite hcanonical hpos (by omega)]
  · rw [Nat.shiftLeft_eq, zpow_neg, zpow_natCast]
    push_cast
    field_simp

section

variable (h : FiniteParts m q narrow) {x y : Float} {a b : ℚ} (hx : Exactly x a) (hy : Exactly y b)

include h hx hy

theorem mul_eq_of_within
    (hv : (Interval.ofBinary m q narrow).Within (a * b)) :
    x * y = .ofModel (.pack (.finite .positive m q h.pos)) := by
  obtain ⟨n, d, hn, hx, hfull, rfl⟩ := hx
  obtain ⟨k, e, hk, hy, hfull', rfl⟩ := hy
  have hbits : 2 ^ 52 ≤ n * k := hfull.trans (Nat.le_mul_of_pos_right n hk)
  have hmul := mul_of_within h hv hn hk rfl hbits
  rw [← hx, ← hy] at hmul
  exact congrArg (fun u => Float.ofModel (.pack u)) hmul

theorem div_eq_of_within
    (hv : (Interval.ofBinary m q narrow).Within (a / b)) :
    x / y = .ofModel (.pack (.finite .positive m q h.pos)) := by
  obtain ⟨n, d, hn, hx, -, rfl⟩ := hx
  obtain ⟨k, e, hk, hy, -, rfl⟩ := hy
  have hdiv := div_of_within h hv hn hk rfl
  rw [← hx, ← hy] at hdiv
  exact congrArg (fun u => Float.ofModel (.pack u)) hdiv

end

/-- The exponent is handed on as a sign and a size. -/
theorem signed_natAbs (e : ℤ) :
    (if decide (e < 0) = true then Int.negOfNat e.natAbs else Int.ofNat e.natAbs) = e := by
  split
  · rename_i he
    have he : e < 0 := of_decide_eq_true he
    rw [Int.negOfNat_eq, Int.ofNat_eq_natCast]
    omega
  · rename_i he
    have he : ¬ e < 0 := of_decide_eq_false (Bool.eq_false_iff.mpr he)
    rw [Int.ofNat_eq_natCast]
    omega

/-- **A decimal is read as the double in whose interval it lies.** -/
theorem nearestFloat_of_within (h : FiniteParts m q narrow) {c : ℕ} {e : ℤ}
    (hv : (Interval.ofBinary m q narrow).Within (c * 10 ^ e)) :
    nearestFloat c e = .ofModel (.pack (.finite .positive m q h.pos)) := by
  rw [nearestFloat, Float.ofScientific]
  split
  · rename_i hfast
    -- the number and the power of ten are doubles
    have hx := exactly_toFloat (coefficient_ne_zero h hv) hfast.1
    have hy := exactly_power e.natAbs (Nat.lt_succ_of_le hfast.2)
    by_cases he : e < 0
    · have hneg : e = -(e.natAbs : ℤ) := by omega
      have hpow : (10 : ℚ) ^ e = (10 ^ e.natAbs)⁻¹ := by
        conv_lhs => rw [hneg]
        rw [zpow_neg, zpow_natCast]
      rw [hpow, ← div_eq_mul_inv] at hv
      simp only [he, decide_true, if_true]
      exact div_eq_of_within h hx hy hv
    · have hpow : (10 : ℚ) ^ e = 10 ^ e.natAbs := by
        conv_lhs => rw [← Int.natAbs_of_nonneg (not_lt.mp he)]
        rw [zpow_natCast]
      rw [hpow] at hv
      simp only [he, decide_false, Bool.false_eq_true, if_false]
      exact mul_eq_of_within h hx hy hv
  · have hslow := ofScientific_of_within h hv
    simp only [signed_natAbs]
    exact congrArg (fun u => Float.ofModel (.pack u)) hslow

end Calculator.Number
