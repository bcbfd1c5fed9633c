import Calculator.Proofs.Number.Spelling

/-!
# The point of a number that is shown

A number is shown with at most one decimal point, and that stands behind a digit.
-/

namespace Calculator.Number

/-- Whether a text has at most one point, and that behind a digit. -/
def Pointed (cs : List Char) : Prop :=
  '.' ∉ cs ∨ ∃ before d after, cs = before ++ d :: '.' :: after ∧ d.isDigit = true ∧
    '.' ∉ before ∧ '.' ∉ after

theorem ne_point_of_isDigit {c : Char} (h : c.isDigit = true) : c ≠ '.' := by
  rintro rfl
  cases h

theorem point_not_mem_of_digits {cs : List Char} (h : ∀ c ∈ cs, c.isDigit = true) : '.' ∉ cs :=
  fun hmem => ne_point_of_isDigit (h '.' hmem) rfl

theorem pointed_of_digits {whole fraction : List Char} (hne : whole ≠ [])
    (hwhole : ∀ c ∈ whole, c.isDigit = true) (hfraction : ∀ c ∈ fraction, c.isDigit = true) :
    Pointed (whole ++ '.' :: fraction) := by
  rcases List.eq_nil_or_concat whole with hnil | ⟨front, d, hconcat⟩
  · exact absurd hnil hne
  rw [List.concat_eq_append] at hconcat
  subst hconcat
  obtain ⟨hfront, hd⟩ := List.forall_mem_append.mp hwhole
  refine .inr ⟨front, d, fraction, ?_, hd d (List.mem_singleton_self d),
    point_not_mem_of_digits hfront, point_not_mem_of_digits hfraction⟩
  rw [List.append_assoc, List.singleton_append]

theorem Pointed.cons {c : Char} {cs : List Char} (h : Pointed cs) (hc : c ≠ '.') :
    Pointed (c :: cs) := by
  rcases h with hnone | ⟨before, d, after, rfl, hd, hbefore, hafter⟩
  · refine .inl ?_
    rw [List.mem_cons]
    rintro (hpoint | hmem)
    · exact hc hpoint.symm
    · exact hnone hmem
  · refine .inr ⟨c :: before, d, after, rfl, hd, ?_, hafter⟩
    rw [List.mem_cons]
    rintro (hpoint | hmem)
    · exact hc hpoint.symm
    · exact hbefore hmem

/-- If a decimal is written out with a point, digits are in front of it. -/
theorem Decimal.pointed_positional (d : Decimal) : Pointed d.positional := by
  obtain ⟨whole, fraction, h⟩ := d.exists_spelled
  rw [h.positional_eq]
  by_cases hne : fraction = []
  · rw [hne, layout_nil]
    exact .inl (point_not_mem_of_digits h.isDigit_whole)
  · rw [layout_of_ne_nil _ hne]
    exact pointed_of_digits h.whole_ne_nil h.isDigit_whole h.isDigit_fraction

theorem Magnitude.pointed_display (m : Magnitude) : Pointed m.display := by
  cases m with
  | zero => exact .inl (by decide)
  | finite m q narrow => exact Decimal.pointed_positional _
  | infinite => exact .inl (by decide)
  | nan => exact .inl (by decide)

/-- **A number is shown with at most one point, and that behind a digit.** -/
theorem pointed_display (x : Float) : Pointed (display x).toList := by
  rw [display, String.toList_ofList, View.display]
  have hmagnitude := (view x).magnitude.pointed_display
  split
  · exact hmagnitude
  · exact hmagnitude
  · split
    · exact hmagnitude.cons (by decide)
    · exact hmagnitude
  · split
    · exact hmagnitude.cons (by decide)
    · exact hmagnitude

end Calculator.Number
