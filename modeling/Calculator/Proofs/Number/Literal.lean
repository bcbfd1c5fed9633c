import Calculator.Number.Literal
import Calculator.Proofs.Token.Tiling
import Mathlib.Data.List.TakeWhile

/-!
# Which literals are numbers

A literal, a digit with digits and points behind it, has a value exactly if it has at most one
point: what stands behind a second one can be read neither as digits nor as an exponent.
-/

namespace Calculator.Number

/-- Of digits and points, no point is among the digits in front. -/
theorem count_dropWhile_isDigit (run : List Char) :
    (run.dropWhile Char.isDigit).count '.' = run.count '.' := by
  have hnone : (run.takeWhile Char.isDigit).count '.' = 0 := by
    rw [List.count_eq_zero]
    intro hmem
    cases List.all_eq_true.mp List.all_takeWhile '.' hmem
  have hsum : (run.takeWhile Char.isDigit ++ run.dropWhile Char.isDigit).count '.' =
      (run.takeWhile Char.isDigit).count '.' + (run.dropWhile Char.isDigit).count '.' :=
    List.count_append
  rw [List.takeWhile_append_dropWhile] at hsum
  omega

/-- Digits and points are read to the end as digits exactly if no point is among them. -/
theorem dropWhile_isDigit_eq_nil_iff {run : List Char} (hrun : ∀ c ∈ run, isNumberChar c = true) :
    run.dropWhile Char.isDigit = [] ↔ run.count '.' = 0 := by
  rw [List.dropWhile_eq_nil_iff, List.count_eq_zero]
  constructor
  · intro h hmem
    cases h '.' hmem
  · intro h c hc
    rcases isNumberChar_iff.mp (hrun c hc) with hdigit | rfl
    · exact hdigit
    · exact absurd hc h

/-- Digits and points are read to the end as digits, a point and digits exactly if they have at
most one point. -/
theorem splitFraction_eq_nil_iff {run : List Char} (hrun : ∀ c ∈ run, isNumberChar c = true) :
    (splitFraction (run.dropWhile Char.isDigit)).2 = [] ↔ run.count '.' ≤ 1 := by
  have hcount := count_dropWhile_isDigit run
  cases hrest : run.dropWhile Char.isDigit with
  | nil =>
      rw [hrest, List.count_nil] at hcount
      refine iff_of_true rfl ?_
      omega
  | cons c rest =>
      have hsuffix : c :: rest <:+ run := by
        rw [← hrest]
        exact List.dropWhile_suffix _
      have hc : c.isDigit = false := head?_dropWhile (by rw [hrest]; rfl)
      obtain rfl : c = '.' := by
        have hnumber := hrun c (hsuffix.subset (List.mem_cons_self ..))
        rcases isNumberChar_iff.mp hnumber with hdigit | hpoint
        · rw [hc] at hdigit
          cases hdigit
        · exact hpoint
      rw [hrest, List.count_cons_self] at hcount
      have hrun' : ∀ d ∈ rest, isNumberChar d = true :=
        fun d hd => hrun d (hsuffix.subset (List.mem_cons_of_mem _ hd))
      show rest.dropWhile Char.isDigit = [] ↔ _
      rw [dropWhile_isDigit_eq_nil_iff hrun']
      omega

theorem splitFraction_suffix (cs : List Char) : (splitFraction cs).2 <:+ cs := by
  unfold splitFraction
  split
  · exact (List.dropWhile_suffix _).trans (List.suffix_cons _ _)
  · exact List.suffix_rfl

/-- No exponent begins with a digit or a point. -/
theorem isSome_exponent?_iff {run : List Char} (hrun : ∀ c ∈ run, isNumberChar c = true) :
    (exponent? run).isSome = true ↔ run = [] := by
  cases run with
  | nil => exact iff_of_true rfl rfl
  | cons c run =>
      have hc : ¬ (c = 'e' ∨ c = 'E') := by
        intro h
        have hnumber := hrun c (List.mem_cons_self ..)
        rcases h with rfl | rfl <;> cases hnumber
      simp [exponent?, hc]

/-- What begins with a digit has no sign. -/
theorem splitSign_of_isDigit {c : Char} (hc : c.isDigit = true) (cs : List Char) :
    splitSign (c :: cs) = (false, c :: cs) := by
  unfold splitSign
  split
  · rename_i hminus
    cases hminus
    cases hc
  · rename_i hplus
    cases hplus
    cases hc
  · rfl

theorem toLower_of_isDigit {c : Char} (hc : c.isDigit = true) : c.toLower = c := by
  obtain ⟨-, hhigh⟩ := Char.isDigit_iff_toNat.mp hc
  have hhigh : c.toNat ≤ 57 := hhigh
  unfold Char.toLower
  split
  · rename_i hupper
    have hlow : 65 ≤ c.toNat := hupper.1
    omega
  · rfl

/-- What begins with a digit is no word. -/
theorem word?_of_isDigit {c : Char} (hc : c.isDigit = true) (cs : List Char) :
    word? (c :: cs) = none := by
  have hne : ∀ word ∈ ["inf", "infinity", "nan"],
      String.ofList ((c :: cs).map Char.toLower) ≠ word := by
    intro word hword h
    have hfirst : word.toList.head? = some c := by
      rw [← h, String.toList_ofList, List.map_cons, toLower_of_isDigit hc, List.head?_cons]
    simp only [List.mem_cons, List.not_mem_nil, or_false] at hword
    rcases hword with rfl | rfl | rfl <;>
    · cases hfirst
      cases hc
  simp only [word?]
  rw [if_neg, if_neg (hne "nan" (by simp))]
  intro h
  rcases h with h | h
  · exact hne "inf" (by simp) h
  · exact hne "infinity" (by simp) h

/-- A literal is read as a number in digits or not at all. -/
theorem isSome_decimal?_iff {c : Char} {run : List Char} (hc : c.isDigit = true)
    (hrun : ∀ d ∈ c :: run, isNumberChar d = true) :
    (decimal? (c :: run)).isSome = true ↔ (c :: run).count '.' ≤ 1 := by
  have hwhole : (c :: run).takeWhile Char.isDigit ≠ [] := by
    rw [List.takeWhile_cons_of_pos hc]
    exact List.cons_ne_nil _ _
  have hrest : ∀ d ∈ (splitFraction ((c :: run).dropWhile Char.isDigit)).2,
      isNumberChar d = true := by
    intro d hd
    have hrest := (splitFraction_suffix _).subset hd
    exact hrun d ((List.dropWhile_suffix Char.isDigit).subset hrest)
  simp only [decimal?]
  rw [if_neg (fun h => hwhole h.1), Option.isSome_map, isSome_exponent?_iff hrest,
    splitFraction_eq_nil_iff hrun]

/-- **A literal has a value exactly if it has at most one point.** -/
theorem isSome_valueOf?_iff {literal : String} (h : IsLiteral literal) :
    (valueOf? literal.toList).isSome = true ↔ literal.toList.count '.' ≤ 1 := by
  have hnumber := h.isNumberChar
  obtain ⟨c, run, hl, hc, -⟩ := h
  rw [hl] at hnumber ⊢
  rw [← isSome_decimal?_iff hc hnumber]
  simp only [valueOf?, splitSign_of_isDigit hc, word?_of_isDigit hc, Option.isSome_map]
  cases decimal? (c :: run) <;> rfl

end Calculator.Number
