import Calculator.Number.Binary
import Mathlib

/-!
# Doubles taken apart

Arithmetic takes a double apart into a sign, a mantissa and an exponent, and these are the ones that
are viewed (`unpacks_view`). The mantissa of a double is as long as its exponent allows, so where
nothing has to be rounded nothing is: a product with one is the other factor (`one_mul`). On which
side of zero a double lies is read off its sign.
-/

namespace Calculator.Number

open Float.Model Float.Model.UnpackedFloat

/-- The sign of a double. -/
def View.sign (v : View) : Sign := if v.negative then .negative else .positive

/-- Whether a mantissa has all its bits, or the exponent is the least. -/
structure Canonical (m : Nat) (q : Int) : Prop where
  mantissa_lt : m < 2 ^ 53
  least_le : -1074 ≤ q
  full : 2 ^ 52 ≤ m ∨ q = -1074

/-- Which parts belong to a double. -/
inductive View.Unpacks : View → UnpackedFloat → Prop
  | zero {negative : Bool} : Unpacks ⟨negative, .zero⟩ (.zero (sign ⟨negative, .zero⟩))
  | finite {negative narrow : Bool} {m : Nat} {q : Int} {hm : 0 < m} (h : Canonical m q) :
      Unpacks ⟨negative, .finite m q narrow⟩
        (.finite (sign ⟨negative, .finite m q narrow⟩) m q hm)
  | infinite {negative : Bool} :
      Unpacks ⟨negative, .infinite⟩ (.infinity (sign ⟨negative, .infinite⟩))
  | nan {negative : Bool} : Unpacks ⟨negative, .nan⟩ .notANumber

section

variable (b : BitVec Format.binary64.numBits)

theorem toNat_unpackExponent :
    (unpackExponent b).toNat = b.toNat / Nat.pow 2 52 % Nat.pow 2 11 := by
  rw [unpackExponent_def, BitVec.extractLsb'_toNat, Nat.shiftRight_eq_div_pow]
  rfl

theorem toNat_unpackMantissa : (unpackMantissa b).toNat = b.toNat % Nat.pow 2 52 := by
  rw [unpackMantissa_def, BitVec.extractLsb'_toNat, Nat.shiftRight_zero]
  rfl

theorem ofBitVec_unpackSign : Sign.ofBitVec (unpackSign b) = (View.ofBits b.toNat).sign := by
  have hbit : (unpackSign b).toNat = b.toNat / Nat.pow 2 63 % 2 := by
    rw [unpackSign_def, BitVec.extractLsb'_toNat, Nat.shiftRight_eq_div_pow]
    rfl
  have hzero : unpackSign b = 0#1 ↔ ¬ b.toNat / Nat.pow 2 63 % 2 = 1 := by
    rw [← BitVec.toNat_inj, hbit]
    show _ = 0 ↔ _
    omega
  simp only [Sign.ofBitVec, View.sign, View.ofBits, hzero]
  split <;> simp_all

/-- The leading bit of a mantissa is not stored. -/
theorem toNat_append_unpackMantissa :
    (1#1 ++ unpackMantissa b).toNat = 2 ^ 52 + (unpackMantissa b).toNat := by
  rw [BitVec.toNat_append, ← Nat.shiftLeft_add_eq_or_of_lt (unpackMantissa b).isLt]
  rfl

theorem unpacks_ofBits : (View.ofBits b.toNat).Unpacks (UnpackedFloat.unpack .binary64 b) := by
  have hview : (View.ofBits b.toNat).magnitude =
      .ofFields (unpackExponent b).toNat (unpackMantissa b).toNat := by
    rw [toNat_unpackExponent, toNat_unpackMantissa]
    rfl
  have hexponent : (unpackExponent b).toNat < 2 ^ 11 := (unpackExponent b).isLt
  have hfraction : (unpackMantissa b).toNat < 2 ^ 52 := (unpackMantissa b).isLt
  rw [Magnitude.ofFields] at hview
  rw [UnpackedFloat.unpack]
  simp only [ofBitVec_unpackSign, ← BitVec.toNat_inj]
  generalize View.ofBits b.toNat = v at hview ⊢
  obtain ⟨negative, magnitude⟩ := v
  -- the fields are looked at in the same order
  split
  · rename_i hlast
    rw [if_pos (show _ = 2047 from hlast)] at hview
    split
    · rename_i hzero
      rw [if_pos (show _ = 0 from hzero)] at hview
      subst hview
      exact .infinite
    · rename_i hzero
      rw [if_neg (show ¬ _ = 0 from hzero)] at hview
      subst hview
      exact .nan
  · rename_i hlast
    rw [if_neg (show ¬ _ = 2047 from hlast)] at hview
    split
    · rename_i hfirst
      rw [if_pos (show _ = 0 from hfirst)] at hview
      split
      · rename_i hzero
        rw [if_pos (show _ = 0 from hzero)] at hview
        subst hview
        exact .zero
      · rename_i hzero
        rw [if_neg (show ¬ _ = 0 from hzero)] at hview
        have hleast : ((unpackExponent b).toNat : Int) - (Format.binary64.exponentBias + 52) + 1 =
            -1074 := by
          rw [show (unpackExponent b).toNat = 0 from hfirst]
          rfl
        rw [← hleast] at hview
        subst hview
        exact .finite ⟨by omega, hleast.ge, .inr hleast⟩
    · rename_i hfirst
      rw [if_neg (show ¬ _ = 0 from hfirst), show Nat.pow 2 52 = 2 ^ 52 from rfl,
        ← toNat_append_unpackMantissa] at hview
      subst hview
      have hfirst : ¬ (unpackExponent b).toNat = 0 := hfirst
      have hm := toNat_append_unpackMantissa b
      have hcanonical : Canonical (1#1 ++ unpackMantissa b).toNat
          ((unpackExponent b).toNat - 1075) := ⟨by omega, by omega, .inl (by omega)⟩
      exact .finite hcanonical

end

/-- **A double is taken apart as it is viewed.** -/
theorem unpacks_view (x : Float) : (view x).Unpacks x.toModel.unpack := unpacks_ofBits _

/-- A double is put together of its parts. -/
theorem ofModel_pack_unpack (x : Float) : .ofModel (.pack x.toModel.unpack) = x :=
  Float.ofBits_toBits x

/-! ## A product with one -/

/-- The exponent that the size of a number asks for is that at which its mantissa is canonical. -/
theorem Canonical.targetExponent {n k : Nat} {q : Int} (h : Canonical (n / 2 ^ k) q) :
    Format.binary64.targetExponent (totalExponent n (q - k)) = q := by
  have htarget : Format.binary64.targetExponent (totalExponent n (q - k)) =
      max (n.log2 + 1 + (q - k) - 53) (-1074) := rfl
  have hlt : n < 2 ^ (53 + k) := by
    rw [Nat.pow_add]
    exact (Nat.div_lt_iff_lt_mul (Nat.two_pow_pos k)).mp h.mantissa_lt
  have hlog : n.log2 < 53 + k := by
    by_cases hn : n = 0
    · rw [hn, Nat.log2_zero]
      omega
    · exact (Nat.log2_lt hn).mpr hlt
  have hleast := h.least_le
  rw [htarget]
  rcases h.full with hfull | hfull
  · have hge : 2 ^ (52 + k) ≤ n := by
      rw [Nat.pow_add]
      exact (Nat.le_div_iff_mul_le (Nat.two_pow_pos k)).mp hfull
    have hn : n ≠ 0 := ((Nat.two_pow_pos (52 + k)).trans_le hge).ne'
    have hlog : 52 + k ≤ n.log2 := (Nat.le_log2 hn).mpr hge
    omega
  · omega

/-- Zeros are shifted out without a trace. -/
theorem shiftRight_exact (m k : Nat) :
    ExtendedMantissa.ofMantissaAndAccuracy (2 ^ k * m) .exact >>> k = ⟨m, false, false⟩ := by
  show k.repeat ExtendedMantissa.shiftRightOne ⟨2 ^ k * m, false, false⟩ = _
  induction k generalizing m with
  | zero =>
      rw [Nat.pow_zero, Nat.one_mul]
      rfl
  | succ k ih =>
      rw [Nat.repeat, Nat.pow_succ, Nat.mul_assoc, ih (2 * m), ExtendedMantissa.shiftRightOne]
      simp

theorem shiftToTargetExponent_of_canonical {m : Nat} {q : Int} (h : Canonical m q) (k : Nat) :
    shiftToTargetExponent .binary64 (2 ^ k * m) (q - k) .exact = (⟨m, false, false⟩, q) := by
  have hdiv : 2 ^ k * m / 2 ^ k = m := Nat.mul_div_cancel_left m (Nat.two_pow_pos k)
  have hshift : (q - (q - (k : Int))).toNat = k := by omega
  have hback : q - (k : Int) + k = q := by omega
  rw [shiftToTargetExponent, Canonical.targetExponent (hdiv.symm ▸ h)]
  simp only [shiftToExponent, hshift, shiftRight_exact, hback]

/-- A number of canonical form is not rounded. -/
theorem roundWithAccuracy_of_canonical {m : Nat} {q : Int} (h : Canonical m q) (hm : 0 < m)
    (k : Nat) (s : Sign) :
    roundWithAccuracy .binary64 s (2 ^ k * m) (q - k) .exact = .finite s m q hm := by
  have hagain := shiftToTargetExponent_of_canonical h 0
  rw [Nat.pow_zero, Nat.one_mul, Nat.cast_zero, Int.sub_zero] at hagain
  simp only [roundWithAccuracy, shiftToTargetExponent_of_canonical h,
    ExtendedMantissa.roundedMantissa, ExtendedMantissa.accuracy, Accuracy.roundToNearestEven,
    hagain]
  rw [dif_neg hm.ne']

theorem unpack_one :
    (1.0 : Float).toModel.unpack = .finite .positive (2 ^ 52) (-52) (Nat.two_pow_pos 52) := by
  rfl

/-- **A product with one is the other factor.** -/
theorem one_mul (x : Float) : 1.0 * x = x := by
  have hpositive (s : Sign) : Sign.positive * s = s := by cases s <;> rfl
  have hmul : UnpackedFloat.mul .binary64 (1.0 : Float).toModel.unpack x.toModel.unpack =
      x.toModel.unpack := by
    have hparts := unpacks_view x
    rw [unpack_one]
    generalize view x = v, x.toModel.unpack = u at hparts
    cases hparts with
    | nan => rfl
    | infinite => exact congrArg _ (hpositive _)
    | zero => exact congrArg _ (hpositive _)
    | @finite _ _ _ _ hm h =>
        rw [UnpackedFloat.mul, hpositive, neg_add_eq_sub]
        exact roundWithAccuracy_of_canonical h hm 52 _
  calc
    1.0 * x = .ofModel (.pack x.toModel.unpack) := congrArg (fun u => Float.ofModel (.pack u)) hmul
    _ = x := ofModel_pack_unpack x

/-! ## On which side of zero a double lies -/

/-- Whether a magnitude lies above zero. -/
def Magnitude.isPositive : Magnitude → Bool
  | .finite .. | .infinite => true
  | .zero | .nan => false

/-- Whether a magnitude is that of a finite number. -/
def Magnitude.isFinite : Magnitude → Bool
  | .zero | .finite .. => true
  | .infinite | .nan => false

theorem lt_zero_iff {x : Float} :
    x < 0 ↔ (view x).negative = true ∧ (view x).magnitude.isPositive = true := by
  have hcompare : x < 0 ↔ x.toModel.unpack.compare (.zero .positive) = some .lt := by
    show decide (UnpackedFloat.lt _ _ = true) = true ↔ _
    rw [decide_eq_true_iff, UnpackedFloat.lt, beq_iff_eq]
    rfl
  have hparts := unpacks_view x
  rw [hcompare]
  generalize view x = v, x.toModel.unpack = u at hparts
  cases hparts with
  | @zero negative => cases negative <;> decide
  | @finite negative => cases negative <;>
      simp [UnpackedFloat.compare, View.sign, Magnitude.isPositive]
  | @infinite negative => cases negative <;> decide
  | @nan negative => cases negative <;> decide

theorem zero_lt_iff {x : Float} :
    0 < x ↔ (view x).negative = false ∧ (view x).magnitude.isPositive = true := by
  have hcompare : 0 < x ↔ UnpackedFloat.compare (.zero .positive) x.toModel.unpack = some .lt := by
    show decide (UnpackedFloat.lt _ _ = true) = true ↔ _
    rw [decide_eq_true_iff, UnpackedFloat.lt, beq_iff_eq]
    rfl
  have hparts := unpacks_view x
  rw [hcompare]
  generalize view x = v, x.toModel.unpack = u at hparts
  cases hparts with
  | @zero negative => cases negative <;> decide
  | @finite negative => cases negative <;>
      simp [UnpackedFloat.compare, View.sign, Magnitude.isPositive]
  | @infinite negative => cases negative <;> decide
  | @nan negative => cases negative <;> decide

theorem not_lt_zero {x : Float} (h : 0 < x) : ¬ x < 0 := by
  rw [lt_zero_iff, (zero_lt_iff.mp h).1]
  simp

theorem isFinite_eq (x : Float) : x.isFinite = (view x).magnitude.isFinite := by
  have hparts := unpacks_view x
  show x.toModel.unpack.isFinite = _
  generalize view x = v, x.toModel.unpack = u at hparts
  cases hparts <;> rfl

end Calculator.Number
