import Calculator.Proofs.Calculation
import Calculator.Proofs.Number.Shown
import Calculator.Proofs.Token.Joining

/-!
# Shown numbers that are calculated again

What is shown of a number is itself a text that can be calculated. Zero and what lies above it come
to themselves, if what is shown is read as what it was; below zero the calculation fails at the
sign, because no number begins with one; and the words have no token and come to nothing.
-/

namespace Calculator

theorem forestOf_number (literal : String) (s : Span) :
    forestOf [⟨.number literal, s⟩] = .ok [.number s literal] := by
  have hnumber : Built .sum (.number s literal) [⟨.number literal, s⟩] := .term (.factor .number)
  exact forestOf_eq_ok_iff.mpr (.cons hnumber (parted_nil _) .nil)

/-- What begins with a symbol with which no expression begins is no forest. -/
theorem forestOf_cons_of_not_begins {t : Token} (h : t.val.begins = false) (ts : List Token) :
    forestOf (t :: ts) = .error ⟨.expectedAtom t.val.text, t.span⟩ := by
  obtain ⟨v, s⟩ := t
  rw [forestOf, Feed.ofTokens, Feed.forest, if_neg (by simp)]
  cases v with
  | number literal => cases h
  | opening => cases h
  | op o => rfl
  | closing => rfl

/-- **The value of a single tree is that of the forest.** -/
theorem Forest.value_singleton (e : Expr) : Forest.value [e] = e.value.map some := by
  rw [Forest.value, productFrom, List.foldlM_cons]
  cases e.value with
  | error fault => rfl
  | ok x => exact congrArg (fun y => Except.ok (some y)) (Number.one_mul x)

namespace Calculation

theorem ofText_of_literal {literal : String} {x : Float} (h : IsLiteral literal)
    (hx : Number.valueOf? literal.toList = some x) : ofText literal = .ok ⟨some x, []⟩ := by
  have htokens : tokensOf (itemsOf literal) =
      [⟨.number literal, ⟨0, byteLength literal.toList, Nat.zero_le _⟩⟩] := by
    rw [itemsOf_of_literal h]
    rfl
  rw [ofText_eq, htokens, forestOf_number, itemsOf_of_literal h]
  simp only [Forest.value_singleton, Expr.value, hx]
  rfl

theorem ofText_of_minus {text : String} {cs : List Char} (h : text.toList = '-' :: cs) :
    ofText text = .error (.parse ⟨.expectedAtom "-", .between 0 1⟩) := by
  have htext : text = '-'.toString ++ .ofList cs := by
    rw [← String.toList_inj, h]
    simp
  have hsymbol : Symbol.ofChar? '-' = some (.op .sub) := rfl
  rw [ofText_eq, htext, tokensOf_itemsOf_cons hsymbol, forestOf_cons_of_not_begins rfl]
  rfl

theorem ofText_of_word {text : String} (h : text ∈ Number.words) :
    ∃ notices, ofText text = .ok ⟨none, notices⟩ := by
  refine ⟨_, ofText_eq_ok_none_iff.mpr ⟨?_, rfl⟩⟩
  simp only [Number.words, List.mem_cons, List.not_mem_nil, or_false] at h
  rcases h with rfl | rfl <;> decide +kernel

end Calculation

end Calculator
