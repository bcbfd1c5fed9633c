import Calculator.Proofs.Number.Parts
import Calculator.Proofs.Number.Spelling

/-!
# What a number is shown as

Of the numbers that the calculator shows, those above zero are literals, digits with at most a point
among them, unless they are infinite; those below zero begin with a sign. Both zeros are shown as
`0`, and a word stands for infinity and for what is no number.
-/

namespace Calculator.Number

/-- The words that are shown instead of digits. -/
def words : List String := ["Infinity", "NaN"]

/-- What a number can be shown as. -/
inductive Shows (x : Float) : String → Prop
  /-- A number below zero, infinity included. -/
  | negative {text : String} {cs : List Char} (hx : x < 0) (htext : text.toList = '-' :: cs) :
      Shows x text
  /-- A zero of either sign. -/
  | zero (hx : ¬ x < 0) : Shows x "0"
  | positive {text : String} (hx : 0 < x) (hfinite : x.isFinite = true)
      (hliteral : IsLiteral text) : Shows x text
  | word {text : String} (hx : ¬ x < 0) (hfinite : x.isFinite = false) (hword : text ∈ words) :
      Shows x text

theorem isLiteral_of_digits {whole rest : List Char} (hne : whole ≠ [])
    (hwhole : ∀ c ∈ whole, c.isDigit = true) (hrest : ∀ c ∈ rest, isNumberChar c = true) :
    IsLiteral (.ofList (whole ++ rest)) := by
  obtain ⟨c, run, rfl⟩ := List.exists_cons_of_ne_nil hne
  obtain ⟨hc, hrun⟩ := List.forall_mem_cons.mp hwhole
  refine ⟨c, run ++ rest, String.toList_ofList, hc, List.forall_mem_append.mpr ⟨?_, hrest⟩⟩
  exact fun d hd => isNumberChar_of_isDigit (hrun d hd)

theorem Decimal.isLiteral_positional (d : Decimal) : IsLiteral (.ofList d.positional) := by
  obtain ⟨whole, fraction, h⟩ := d.exists_spelled
  rw [h.positional_eq, layout]
  refine isLiteral_of_digits h.whole_ne_nil h.isDigit_whole ?_
  split
  · exact List.forall_mem_nil _
  · exact List.forall_mem_cons.mpr
      ⟨rfl, fun c hc => isNumberChar_of_isDigit (h.isDigit_fraction c hc)⟩

/-- **What a number is shown as** depends on its sign and on whether it is finite. -/
theorem shows_display (x : Float) : Shows x (display x) := by
  have hnegative := lt_zero_iff (x := x)
  have hpositive := zero_lt_iff (x := x)
  have hfinite := isFinite_eq x
  rw [display, View.display]
  generalize view x = v at hnegative hpositive hfinite
  obtain ⟨negative, magnitude⟩ := v
  cases magnitude with
  | zero => exact .zero (by simp [hnegative, Magnitude.isPositive])
  | nan =>
      exact .word (by simp [hnegative, Magnitude.isPositive]) hfinite
        (List.mem_cons_of_mem _ (List.mem_singleton_self _))
  | finite m q narrow =>
      cases negative with
      | true => exact .negative (hnegative.mpr ⟨rfl, rfl⟩) String.toList_ofList
      | false =>
          exact .positive (hpositive.mpr ⟨rfl, rfl⟩) hfinite (Decimal.isLiteral_positional _)
  | infinite =>
      cases negative with
      | true => exact .negative (hnegative.mpr ⟨rfl, rfl⟩) String.toList_ofList
      | false => exact .word (by simp [hnegative]) hfinite (List.mem_cons_self ..)

theorem isLiteral_zero : IsLiteral "0" := ⟨'0', [], rfl, rfl, List.forall_mem_nil _⟩

theorem isLiteral_display {x : Float} (hx : 0 < x) (hfinite : x.isFinite = true) :
    IsLiteral (display x) := by
  have hshows := shows_display x
  generalize display x = text at hshows
  cases hshows with
  | negative hnegative => exact absurd hnegative (not_lt_zero hx)
  | zero => exact isLiteral_zero
  | positive _ _ hliteral => exact hliteral
  | word _ hinfinite =>
      rw [hfinite] at hinfinite
      cases hinfinite

theorem display_zero : display 0 = "0" := by decide +kernel

end Calculator.Number
