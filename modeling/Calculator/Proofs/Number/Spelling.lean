import Calculator.Number.Display
import Calculator.Proofs.Number.Literal
import Mathlib.Algebra.Ring.Nat
import Mathlib.Data.List.TakeWhile

/-!
# How a decimal is written out

A decimal is written out in digits, and behind a point there are as many as its exponent is below
zero (`Decimal.exists_spelled`). Whatever the layout, what the digits spell is the coefficient, with
zeros behind it if the exponent is above zero; and a text of that form is read as a number
(`valueOf?_of_digits`).
-/

namespace Calculator.Number

/-! ## What digits spell -/

theorem natOfDigits_concat (cs : List Char) (c : Char) :
    natOfDigits (cs ++ [c]) = 10 * natOfDigits cs + digitValue c := List.foldl_append ..

theorem digitValue_digitChar {d : Nat} (h : d < 10) : digitValue d.digitChar = d := by
  have hall : ∀ d : Fin 10, digitValue (Nat.digitChar d) = d := by decide
  exact hall ⟨d, h⟩

/-- The digits of a number spell it. -/
theorem natOfDigits_toDigits (n : Nat) : natOfDigits (Nat.toDigits 10 n) = n := by
  induction n using Nat.strongRecOn with
  | _ n ih =>
      rcases Nat.lt_or_ge n 10 with hlt | hge
      · rw [Nat.toDigits_of_lt_base hlt]
        show 10 * 0 + digitValue n.digitChar = n
        rw [digitValue_digitChar hlt, Nat.mul_zero, Nat.zero_add]
      · have hmod : n % 10 < 10 := Nat.mod_lt n (by decide)
        rw [Nat.toDigits_of_base_le (by decide) hge, natOfDigits_concat, ih (n / 10) (by omega),
          digitValue_digitChar hmod, Nat.div_add_mod]

theorem natOfDigits_append_zeros (cs : List Char) (n : Nat) :
    natOfDigits (cs ++ List.replicate n '0') = natOfDigits cs * 10 ^ n := by
  induction n with
  | zero => rw [List.replicate_zero, List.append_nil, Nat.pow_zero, Nat.mul_one]
  | succ n ih =>
      rw [List.replicate_succ', ← List.append_assoc, natOfDigits_concat, ih, Nat.pow_succ]
      show 10 * _ + 0 = _
      rw [Nat.add_zero, Nat.mul_comm 10, Nat.mul_assoc]

/-- Zeros in front are of no account. -/
theorem natOfDigits_zeros_append (n : Nat) (cs : List Char) :
    natOfDigits (List.replicate n '0' ++ cs) = natOfDigits cs := by
  have hzeros : natOfDigits (List.replicate n '0') = 0 := by
    have h := natOfDigits_append_zeros [] n
    rw [List.nil_append] at h
    rw [h]
    exact Nat.zero_mul _
  rw [natOfDigits, List.foldl_append]
  show List.foldl _ (natOfDigits (List.replicate n '0')) cs = _
  rw [hzeros]
  rfl

/-! ## The layout -/

/-- Digits in front of a point and digits behind it; without any behind it there is no point. -/
def layout (whole fraction : List Char) : List Char :=
  whole ++ if fraction = [] then [] else '.' :: fraction

theorem layout_nil (whole : List Char) : layout whole [] = whole := by
  rw [layout, if_pos rfl, List.append_nil]

theorem layout_of_ne_nil (whole : List Char) {fraction : List Char} (h : fraction ≠ []) :
    layout whole fraction = whole ++ '.' :: fraction := by
  rw [layout, if_neg h]

/-- How a decimal is written out. -/
structure Decimal.Spelled (d : Decimal) (whole fraction : List Char) : Prop where
  positional_eq : d.positional = layout whole fraction
  whole_ne_nil : whole ≠ []
  isDigit_whole : ∀ c ∈ whole, c.isDigit = true
  isDigit_fraction : ∀ c ∈ fraction, c.isDigit = true
  length_fraction : fraction.length = (-d.exponent).toNat
  natOfDigits_eq : natOfDigits (whole ++ fraction) = d.coefficient * 10 ^ d.exponent.toNat

/-- **Every decimal is written out in digits**, with as many behind a point as its exponent is below
zero. -/
theorem Decimal.exists_spelled (d : Decimal) : ∃ whole fraction, d.Spelled whole fraction := by
  have hdigits : ∀ c ∈ Nat.toDigits 10 d.coefficient, c.isDigit = true :=
    fun c hc => Nat.isDigit_of_mem_toDigits (by decide) (by decide) hc
  have hzeros : ∀ n : Nat, ∀ c ∈ List.replicate n '0', c.isDigit = true := by
    intro n c hc
    rw [(List.mem_replicate.mp hc).2]
    rfl
  have hvalue := natOfDigits_toDigits d.coefficient
  by_cases hplaces : (-d.exponent).toNat = 0
  · exact ⟨Nat.toDigits 10 d.coefficient ++ List.replicate d.exponent.toNat '0', [],
      { positional_eq := by rw [layout_nil, positional, if_pos hplaces]
        whole_ne_nil := List.append_ne_nil_of_left_ne_nil Nat.toDigits_ne_nil _
        isDigit_whole := List.forall_mem_append.mpr ⟨hdigits, hzeros _⟩
        isDigit_fraction := List.forall_mem_nil _
        length_fraction := hplaces.symm
        natOfDigits_eq := by rw [List.append_nil, natOfDigits_append_zeros, hvalue] }⟩
  · have hexponent : d.exponent.toNat = 0 := by omega
    have hne {fraction : List Char} (h : fraction.length = (-d.exponent).toNat) :
        fraction ≠ [] := by
      rintro rfl
      exact hplaces h.symm
    by_cases hshort : (-d.exponent).toNat < (Nat.toDigits 10 d.coefficient).length
    · generalize hfront : (Nat.toDigits 10 d.coefficient).length - (-d.exponent).toNat = front
      have hlength : ((Nat.toDigits 10 d.coefficient).drop front).length = (-d.exponent).toNat := by
        rw [List.length_drop]
        omega
      exact ⟨(Nat.toDigits 10 d.coefficient).take front, (Nat.toDigits 10 d.coefficient).drop front,
        { positional_eq := by
            rw [layout_of_ne_nil _ (hne hlength), positional, if_neg hplaces, if_pos hshort, hfront]
          whole_ne_nil := by
            rw [ne_eq, List.take_eq_nil_iff, not_or]
            exact ⟨by omega, Nat.toDigits_ne_nil⟩
          isDigit_whole := fun c hc => hdigits c (List.mem_of_mem_take hc)
          isDigit_fraction := fun c hc => hdigits c (List.mem_of_mem_drop hc)
          length_fraction := hlength
          natOfDigits_eq := by
            rw [List.take_append_drop, hvalue, hexponent, Nat.pow_zero, Nat.mul_one] }⟩
    · generalize hbehind : (-d.exponent).toNat - (Nat.toDigits 10 d.coefficient).length = behind
      have hlength : (List.replicate behind '0' ++ Nat.toDigits 10 d.coefficient).length =
          (-d.exponent).toNat := by
        rw [List.length_append, List.length_replicate]
        omega
      exact ⟨['0'], List.replicate behind '0' ++ Nat.toDigits 10 d.coefficient,
        { positional_eq := by
            rw [layout_of_ne_nil _ (hne hlength), positional, if_neg hplaces, if_neg hshort,
              hbehind]
            rfl
          whole_ne_nil := List.cons_ne_nil _ _
          isDigit_whole := List.forall_mem_singleton.mpr rfl
          isDigit_fraction := List.forall_mem_append.mpr ⟨hzeros _, hdigits⟩
          length_fraction := hlength
          natOfDigits_eq := by
            rw [← List.append_assoc, List.singleton_append, ← List.replicate_succ,
              natOfDigits_zeros_append, hvalue, hexponent, Nat.pow_zero, Nat.mul_one] }⟩

/-! ## Reading it -/

/-- Behind the whole digits the fraction is all there is. -/
theorem splitFraction_layout {fraction : List Char} (h : ∀ c ∈ fraction, c.isDigit = true) :
    (layout [] fraction).takeWhile Char.isDigit = [] ∧
      (layout [] fraction).dropWhile Char.isDigit = layout [] fraction ∧
      splitFraction (layout [] fraction) = (fraction, []) := by
  by_cases hne : fraction = []
  · rw [hne]
    exact ⟨rfl, rfl, rfl⟩
  · have htake : fraction.takeWhile Char.isDigit = fraction := List.takeWhile_eq_self_iff.mpr h
    have hdrop : fraction.dropWhile Char.isDigit = [] := List.dropWhile_eq_nil_iff.mpr h
    rw [layout_of_ne_nil _ hne, List.nil_append]
    refine ⟨rfl, rfl, ?_⟩
    rw [splitFraction, htake, hdrop]

/-- **Digits are read as what they spell**, the point taken into account. -/
theorem valueOf?_layout {whole fraction : List Char} (hne : whole ≠ [])
    (hwhole : ∀ c ∈ whole, c.isDigit = true) (hfraction : ∀ c ∈ fraction, c.isDigit = true) :
    valueOf? (layout whole fraction) =
      some (nearestFloat (natOfDigits (whole ++ fraction)) (-fraction.length)) := by
  have hlayout : layout whole fraction = whole ++ layout [] fraction := by
    rw [layout, layout, List.nil_append]
  obtain ⟨htake, hdrop, hsplit⟩ := splitFraction_layout hfraction
  have hdecimal : decimal? (layout whole fraction) =
      some (nearestFloat (natOfDigits (whole ++ fraction)) (-fraction.length)) := by
    rw [decimal?, hlayout, List.takeWhile_append_of_pos hwhole, List.dropWhile_append_of_pos hwhole,
      htake, hdrop, List.append_nil]
    simp only [hsplit]
    rw [if_neg (fun h => hne h.1), exponent?, Option.map_some, Int.zero_sub]
  obtain ⟨c, cs, rfl⟩ := List.exists_cons_of_ne_nil hne
  rw [valueOf?, hlayout, List.cons_append, splitSign_of_isDigit (hwhole c (List.mem_cons_self ..)),
    ← List.cons_append, ← hlayout]
  simp only [hdecimal]
  rfl

end Calculator.Number
