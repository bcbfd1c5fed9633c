import Calculator.Keypad.Screen
import Mathlib.Data.List.Basic

/-!
# What is on the screen

The text on the screen is what its entries say, one behind the other: an entry adds to its end, and
taking one back cuts it there. `Screen.typed` is the screen after any keys; a press that fails is
passed over, and the next key is pressed.
-/

namespace Calculator

namespace Key

/-- The characters that are operators on the keypad. -/
def operators : List Char := ['+', '-', '*', '/']

/-- The characters whose keys do not add to the text. -/
def commands : List Char := ['<', 'C', 'c', '=']

/-- Which characters stand for which keys. -/
inductive Labelled : Char → Key → Prop
  | operator {c : Char} (hc : c ∈ operators) : Labelled c (.operator c)
  | dot : Labelled '.' .dot
  | delete : Labelled '<' .delete
  | cancel {c : Char} (hc : c ∈ ['C', 'c']) : Labelled c .cancel
  | equals : Labelled '=' .equals
  | input {c : Char} (hoperator : c ∉ operators) (hdot : c ≠ '.') (hcommand : c ∉ commands) :
      Labelled c (.input c)

theorem labelled (c : Char) : Labelled c (ofChar c) := by
  unfold ofChar
  split
  · exact .equals
  · exact .cancel (by decide)
  · exact .cancel (by decide)
  · exact .delete
  · exact .dot
  · exact .operator (by decide)
  · exact .operator (by decide)
  · exact .operator (by decide)
  · exact .operator (by decide)
  · refine .input ?_ ?_ ?_
    · simp_all [operators]
    · simp_all
    · simp_all [commands]

/-- A character that is no command types itself, or it is the point. -/
theorem ofChar_of_not_mem_commands {c : Char} (h : c ∉ commands) :
    (c ∈ operators ∧ ofChar c = operator c) ∨ (c = '.' ∧ ofChar c = dot) ∨
      (c ∉ operators ∧ c ≠ '.' ∧ ofChar c = input c) := by
  have hkey : Labelled c (ofChar c) := labelled c
  generalize ofChar c = key at hkey ⊢
  cases hkey with
  | operator hc => exact .inl ⟨hc, rfl⟩
  | dot => exact .inr (.inl ⟨rfl, rfl⟩)
  | delete => exact absurd (by decide) h
  | cancel hc =>
      simp only [List.mem_cons, List.not_mem_nil, or_false] at hc
      rcases hc with rfl | rfl <;> exact absurd (by decide) h
  | equals => exact absurd (by decide) h
  | input hoperator hdot _ => exact .inr (.inr ⟨hoperator, hdot, rfl⟩)

theorem ofChar_of_isDigit {c : Char} (h : c.isDigit = true) : ofChar c = input c := by
  have hcommand : c ∉ commands := by
    intro hc
    simp only [commands, List.mem_cons, List.not_mem_nil, or_false] at hc
    rcases hc with rfl | rfl | rfl | rfl <;> cases h
  rcases ofChar_of_not_mem_commands hcommand with ⟨hc, -⟩ | ⟨rfl, -⟩ | ⟨-, -, hkey⟩
  · simp only [operators, List.mem_cons, List.not_mem_nil, or_false] at hc
    rcases hc with rfl | rfl | rfl | rfl <;> cases h
  · cases h
  · exact hkey

end Key

namespace Screen

/-- The screen after the keys for some characters; a press that fails leaves it as it is. -/
def typed (cs : List Char) : Screen := cs.foldl (fun s c => (s.press (.ofChar c)).value.2) {}

theorem typed_concat (cs : List Char) (c : Char) :
    typed (cs ++ [c]) = ((typed cs).press (.ofChar c)).value.2 := List.foldl_concat ..

/-! ## The text -/

theorem toList_text_cons (entry : String) (entries : List String) (d : Bool) :
    (Screen.mk (entry :: entries) d).text.toList =
      (Screen.mk entries d).text.toList ++ entry.toList := by
  simp only [text, String.toList_join, List.reverse_cons, List.flatMap_append,
    List.flatMap_singleton]

/-- A character is shown behind all else. -/
theorem toList_text_char (s : Screen) (c : Char) (d : Bool) :
    (Screen.mk (c.toString :: s.entries) d).text.toList = s.text.toList ++ [c] := by
  rw [toList_text_cons, Char.toString_eq_singleton, String.toList_singleton]
  rfl

theorem text_delete (s : Screen) : s.delete.text.toList <+: s.text.toList := by
  obtain ⟨entries, d⟩ := s
  cases entries with
  | nil => exact List.prefix_rfl
  | cons entry entries =>
      rw [toList_text_cons]
      exact List.prefix_append _ _

theorem text_ofValue (x : Float) : (ofValue x).text = Number.display x := by
  simp [ofValue, text]

/-- The latest entry is at the end of the text. -/
theorem getLast?_text_of_endsWithDigit {s : Screen} (h : s.entries.head?.any endsWithDigit = true) :
    ∃ d ∈ s.text.toList.getLast?, d.isDigit = true := by
  obtain ⟨entries, flag⟩ := s
  cases entries with
  | nil => cases h
  | cons entry entries =>
      have h : entry.toList.getLast?.any Char.isDigit = true := h
      cases hlast : entry.toList.getLast? with
      | none =>
          rw [hlast] at h
          cases h
      | some d =>
          rw [hlast] at h
          refine ⟨d, ?_, h⟩
          rw [toList_text_cons, List.getLast?_append, hlast]
          rfl

/-! ## Replacing the screen by its value -/

theorem value_equals (s : Screen) : s.equals.value =
    if s.isEmpty then
      (.ok (), s)
    else
      match Calculation.ofText s.text with
      | .error fault => (.error fault, s)
      | .ok ⟨none, _⟩ => (.ok (), s)
      | .ok ⟨some x, _⟩ => (.ok (), ofValue x) := by
  rw [equals]
  split
  · rfl
  · rw [Logged.value_bind, Calculation.ofText]
    cases (Calculation.record s.text).value with
    | error fault => rfl
    | ok calculation =>
        obtain ⟨value, notices⟩ := calculation
        cases value <;> rfl

theorem value_equals_of_value {s : Screen} {x : Float} {notices : List Notice}
    (hempty : s.isEmpty = false) (hvalue : Calculation.ofText s.text = .ok ⟨some x, notices⟩) :
    s.equals.value = (.ok (), ofValue x) := by
  rw [value_equals, hempty, if_neg Bool.false_ne_true, hvalue]

/-- It is left as it was, or it shows the value. -/
theorem equals_eq_or (s : Screen) :
    s.equals.value.2 = s ∨ ∃ x notices, s.isEmpty = false ∧
      Calculation.ofText s.text = .ok ⟨some x, notices⟩ ∧ s.equals.value.2 = ofValue x := by
  cases hempty : s.isEmpty with
  | true => exact .inl (by rw [value_equals, hempty, if_pos rfl])
  | false =>
      rcases hvalue : Calculation.ofText s.text with fault | ⟨_ | x, notices⟩
      · exact .inl (by rw [value_equals, hempty, if_neg Bool.false_ne_true, hvalue])
      · exact .inl (by rw [value_equals, hempty, if_neg Bool.false_ne_true, hvalue])
      · exact .inr ⟨x, notices, rfl, rfl, by rw [value_equals_of_value hempty hvalue]⟩

theorem equals_eq_error_iff {s : Screen} {fault : Fault} :
    s.equals.value.1 = .error fault ↔
      s.isEmpty = false ∧ Calculation.ofText s.text = .error fault := by
  rw [value_equals]
  cases hempty : s.isEmpty with
  | true => simp
  | false =>
      rw [if_neg Bool.false_ne_true]
      split <;> simp_all

end Screen

end Calculator
