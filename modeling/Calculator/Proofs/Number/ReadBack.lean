import Calculator.Proofs.Number.Nearest
import Calculator.Proofs.Number.Shortest
import Calculator.Proofs.Number.Spelling

/-!
# What is shown of a number is read as that number

The shortest decimal of a double lies in the interval around it, however it is written out it spells
that decimal, and a decimal is read as the double in whose interval it lies. So nothing of a number
is lost when it is shown, but for the sign of a zero.
-/

namespace Calculator.Number

open Float.Model Float.Model.UnpackedFloat

/-- Whether what is shown of a number is read as that number. -/
def ReadsBack (x : Float) : Prop := valueOf? (display x).toList = some x

instance (x : Float) : Decidable (ReadsBack x) := inferInstanceAs (Decidable (_ = _))

/-- A decimal that is written out is read as the double in whose interval it lies. -/
theorem valueOf?_positional {m : ℕ} {q : ℤ} {narrow : Bool} (h : FiniteParts m q narrow)
    {d : Decimal} (hd : (Interval.ofBinary m q narrow).Within d.value) :
    valueOf? d.positional = some (.ofModel (.pack (.finite .positive m q h.pos))) := by
  obtain ⟨whole, fraction, hspelled⟩ := d.exists_spelled
  have hvalue : (natOfDigits (whole ++ fraction) : ℚ) * 10 ^ (-(fraction.length : ℤ)) =
      d.value := by
    rw [hspelled.natOfDigits_eq, hspelled.length_fraction, Decimal.value]
    push_cast
    rw [← zpow_mul_pow_toNat (by norm_num) d.exponent, zpow_neg, zpow_natCast]
    field_simp
  rw [hspelled.positional_eq, valueOf?_layout hspelled.whole_ne_nil hspelled.isDigit_whole
    hspelled.isDigit_fraction, nearestFloat_of_within h (hvalue ▸ hd)]

theorem valueOf?_shortest {m : ℕ} {q : ℤ} {narrow : Bool} (h : FiniteParts m q narrow) :
    valueOf? (Interval.ofBinary m q narrow).shortest.positional =
      some (.ofModel (.pack (.finite .positive m q h.pos))) :=
  valueOf?_positional h (Interval.ample_ofBinary h).within_shortest

/-- Behind a minus a number is read as its negative. -/
theorem valueOf?_minus {cs : List Char} {x : Float} (hsign : splitSign cs = (false, cs))
    (h : valueOf? cs = some x) : valueOf? ('-' :: cs) = some (-x) := by
  have hminus : splitSign ('-' :: cs) = (true, cs) := rfl
  simp only [valueOf?, hsign, Bool.false_eq_true, if_false, Option.map_id_fun', id] at h
  simp only [valueOf?, hminus, h, if_true, Option.map_some]

theorem Decimal.splitSign_positional (d : Decimal) :
    splitSign d.positional = (false, d.positional) := by
  obtain ⟨whole, fraction, h⟩ := d.exists_spelled
  obtain ⟨c, cs, rfl⟩ := List.exists_cons_of_ne_nil h.whole_ne_nil
  rw [h.positional_eq, layout, List.cons_append]
  exact splitSign_of_isDigit (h.isDigit_whole c (List.mem_cons_self ..)) _

/-- The negative of a double is put together of the same parts. -/
theorem neg_ofModel_pack {m : ℕ} {q : ℤ} {narrow : Bool} (h : FiniteParts m q narrow) :
    -(.ofModel (.pack (.finite .positive m q h.pos)) : Float) =
      .ofModel (.pack (.finite .negative m q h.pos)) := by
  have hunpack := unpack_pack_finite h.canonical h.pos h.le_greatest .positive
  exact congrArg (fun u => Float.ofModel (.pack (UnpackedFloat.neg u))) hunpack

/-- **What is shown of a number is read as that number.** The sign of a zero is not shown. -/
theorem readsBack {x : Float} (hx : x ≠ -0.0) : ReadsBack x := by
  have hparts := unpacks_view x
  have hx' := ofModel_pack_unpack x
  rw [ReadsBack, display, String.toList_ofList, View.display]
  generalize hv : view x = v at hparts
  generalize hu : x.toModel.unpack = u at hparts hx'
  cases hparts with
  | @zero negative =>
      subst hx'
      cases negative with
      | false => decide +kernel
      | true => exact absurd (by decide +kernel) hx
  | @finite negative narrow m q hm h =>
      have hf := finiteParts_of_view hv
      cases negative with
      | false =>
          rw [← hx']
          exact valueOf?_shortest hf
      | true =>
          rw [← hx']
          exact (valueOf?_minus (Decimal.splitSign_positional _) (valueOf?_shortest hf)).trans
            (congrArg some (neg_ofModel_pack hf))
  | @infinite negative =>
      rw [← hx']
      cases negative <;> decide +kernel
  | nan =>
      rw [← hx']
      show valueOf? "NaN".toList = _
      decide +kernel

example : ¬ ReadsBack (-0.0) := by decide +kernel

theorem readsBack_zero : ReadsBack 0 := readsBack (by decide +kernel)

theorem readsBack_of_pos {x : Float} (hx : 0 < x) : ReadsBack x := by
  refine readsBack ?_
  rintro rfl
  exact absurd hx (by decide +kernel)

end Calculator.Number
