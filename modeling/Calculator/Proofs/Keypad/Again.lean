import Calculator.Proofs.Keypad.Typing
import Calculator.Proofs.Number.ReadBack
import Calculator.Proofs.Reentry

/-!
# Asking for the value again

When the screen shows a value and the value is asked for once more, nothing changes: what is shown
comes to itself, or it has no value. A value below zero cannot be calculated again, because no
expression begins with its sign; all others can.
-/

namespace Calculator.Screen

/-- What the screen shows of a value. -/
theorem ofValue_of_display {x y : Float} (h : Number.display x = Number.display y) :
    ofValue x = ofValue y := by
  simp only [ofValue, h]

/-- **A shown value is kept.** -/
theorem value_equals_ofValue (x : Float) :
    (ofValue x).equals.value =
      (if x < 0 then .error (.parse ⟨.expectedAtom "-", .between 0 1⟩) else .ok (), ofValue x) := by
  have hempty : (ofValue x).isEmpty = false := rfl
  have hshows := Number.shows_display x
  rw [value_equals, hempty, text_ofValue, if_neg Bool.false_ne_true]
  generalize htext : Number.display x = text at hshows
  cases hshows with
  | negative hx hminus =>
      rw [Calculation.ofText_of_minus hminus, if_pos hx]
  | zero hx =>
      have hvalue : Number.valueOf? "0".toList = some 0 :=
        Number.display_zero ▸ Number.readsBack_zero
      have hsame : ofValue 0 = ofValue x :=
        ofValue_of_display (Number.display_zero.trans htext.symm)
      rw [Calculation.ofText_of_literal Number.isLiteral_zero hvalue, if_neg hx, ← hsame]
  | positive hx _ hliteral =>
      have hvalue : Number.valueOf? text.toList = some x := htext ▸ Number.readsBack_of_pos hx
      rw [Calculation.ofText_of_literal hliteral hvalue, if_neg (Number.not_lt_zero hx)]
  | word hx _ hword =>
      obtain ⟨notices, hnone⟩ := Calculation.ofText_of_word hword
      rw [hnone, if_neg hx]

/-- **Asking for the value again changes nothing.** The second press fails exactly if the first one
showed a value below zero, and then it blames the sign. -/
theorem equals_again (s : Screen) :
    let once := (s.press .equals).value.2
    (once.press .equals).value.2 = once ∧
      ∀ x notices, s.isEmpty = false → Calculation.ofText s.text = .ok ⟨some x, notices⟩ →
        once = ofValue x ∧
          (once.press .equals).value.1 =
            if x < 0 then .error (.parse ⟨.expectedAtom "-", .between 0 1⟩) else .ok () := by
  simp only [press]
  constructor
  · rcases s.equals_eq_or with hkept | ⟨x, notices, -, hvalue, hshown⟩
    · rw [hkept, hkept]
    · rw [hshown, value_equals_ofValue]
  · intro x notices hempty hvalue
    rw [value_equals_of_value hempty hvalue, value_equals_ofValue]
    exact ⟨rfl, rfl⟩

/-- A value that is not the sum in decimals is kept as it is shown. A value below zero is kept as
well, but cannot be calculated. -/
theorem equals_again_sum_and_difference :
    let sum : Screen := ⟨["2", "0.", "+", "1", "0."], true⟩
    let difference : Screen := ⟨["2", "-", "1"], false⟩
    ((sum.press .equals).value.2.press .equals).value.2 = (sum.press .equals).value.2 ∧
    (sum.press .equals).value.2.text = "0.30000000000000004" ∧
    difference.isEmpty = false ∧ Calculation.ofText difference.text = .ok ⟨some (-1), []⟩ ∧
    ((difference.press .equals).value.2.press .equals).value.1 =
      .error (.parse ⟨.expectedAtom "-", .between 0 1⟩) := by
  intro sum difference
  have hvalue : Calculation.ofText difference.text = .ok ⟨some (-1), []⟩ := by decide +kernel
  refine ⟨(equals_again sum).1, by decide +kernel, rfl, hvalue, ?_⟩
  have hsecond := ((equals_again difference).2 (-1) [] rfl hvalue).2
  rwa [if_pos (by decide +kernel)] at hsecond

end Calculator.Screen
