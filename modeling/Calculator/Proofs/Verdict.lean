import Calculator.Proofs.Calculation
import Calculator.Proofs.Forest.Alike

/-!
# Verdicts

The verdict on a text is its value, or the reason why it has none; where the text stands, and what
was passed over in it, is left out. Expressions of the same value make forests of the same value
(`Forest.agree_value`), so texts whose forests agree tree by tree have one verdict.
-/

namespace Calculator

/-- What is wrong with a line, wherever it stands. -/
def Fault.cause : Fault → ParseFault ⊕ ValueFault
  | parse fault => .inl fault.val
  | value fault => .inr fault.val

/-- Two expressions have one value, or none for one reason. -/
def Expr.SameValue (d e : Expr) : Prop := Agree (· = ·) d.value e.value

theorem Expr.SameValue.trans {d e f : Expr} (hde : d.SameValue e) (hef : e.SameValue f) :
    d.SameValue f := by
  rw [SameValue] at hde hef ⊢
  generalize d.value = x, e.value = y, f.value = z at hde hef
  cases hde with
  | ok hxy =>
      cases hef with
      | ok hyz => exact .ok (hxy.trans hyz)
  | error hxy =>
      cases hef with
      | error hyz => exact .error (hxy.trans hyz)

/-- The verdict on a text. -/
def Calculation.verdict (text : String) : Except (ParseFault ⊕ ValueFault) (Option Float) :=
  match ofText text with
  | .error fault => .error fault.cause
  | .ok calculation => .ok calculation.value

/-- What an expression comes to depends on what its operands come to. -/
theorem Expr.congruence_sameValue : Expr.Congruence Expr.SameValue where
  number s t literal := by
    simp only [SameValue, value]
    cases Number.valueOf? literal.toList with
    | none => exact .error rfl
    | some x => exact .ok rfl
  group s t h := h
  binary {a b d e o p} s t ho hlhs hrhs := by
    simp only [SameValue, value] at hlhs hrhs ⊢
    rw [ho]
    generalize a.value = x, b.value = y at hlhs
    cases hlhs with
    | error hfault => exact .error hfault
    | ok heq =>
        cases heq
        generalize d.value = x', e.value = y' at hrhs
        cases hrhs with
        | error hfault => exact .error hfault
        | ok heq =>
            cases heq
            exact .ok rfl

namespace Forest

theorem agree_productFrom {f g : Forest} (h : List.Forall₂ Expr.SameValue f g) (x : Float) :
    Agree (· = ·) (productFrom x f) (productFrom x g) := by
  induction h generalizing x with
  | nil => exact .ok rfl
  | @cons d e f g hde _ ih =>
      rw [productFrom, productFrom, List.foldlM_cons, List.foldlM_cons]
      simp only [Expr.SameValue] at hde
      generalize d.value = y, e.value = z at hde
      cases hde with
      | error hfault => exact .error hfault
      | ok heq =>
          cases heq
          exact ih _

/-- **Forests of the same values have the same value.** -/
theorem agree_value {f g : Forest} (h : List.Forall₂ Expr.SameValue f g) :
    Agree (· = ·) (Forest.value f) (Forest.value g) := by
  cases h with
  | nil => exact .ok rfl
  | @cons d e f g hde hfg =>
      have hproduct := agree_productFrom (.cons hde hfg) 1.0
      rw [Forest.value, Forest.value]
      generalize productFrom 1.0 (d :: f) = x, productFrom 1.0 (e :: g) = y at hproduct
      cases hproduct with
      | error hfault => exact .error hfault
      | ok heq =>
          cases heq
          exact .ok rfl

end Forest

namespace Calculation

theorem verdict_eq (text : String) :
    verdict text =
      match forestOf (tokensOf (itemsOf text)) with
      | .error fault => .error (.inl fault.val)
      | .ok forest =>
          match forest.value with
          | .error fault => .error (.inr fault.val)
          | .ok value => .ok value := by
  rw [verdict, ofText_eq]
  cases forestOf (tokensOf (itemsOf text)) with
  | error fault => rfl
  | ok forest =>
      simp only
      cases forest.value <;> rfl

/-- **Texts with forests of the same values have one verdict.** -/
theorem verdict_congr {a b : String}
    (h : Agree (List.Forall₂ Expr.SameValue) (forestOf (tokensOf (itemsOf a)))
      (forestOf (tokensOf (itemsOf b)))) :
    verdict a = verdict b := by
  rw [verdict_eq, verdict_eq]
  generalize forestOf (tokensOf (itemsOf a)) = x, forestOf (tokensOf (itemsOf b)) = y at h
  cases h with
  | error hfault => simp only [hfault]
  | @ok f g hforest =>
      have hvalue := Forest.agree_value hforest
      simp only
      generalize Forest.value f = x, Forest.value g = y at hvalue
      cases hvalue with
      | error hfault => simp only [hfault]
      | ok heq =>
          cases heq
          rfl

end Calculation

end Calculator
