import Calculator.Proofs.Calculation
import Calculator.Proofs.Token.Runs

/-!
# Texts of arithmetic

In a text of digits, points, parentheses and operators only a point can be passed over, and that
only where no digit stands before it. Where every point stands behind a digit, then, all of the text
is tokens (`Arithmetic.noticesOf_eq_nil`), and if it has a value at all it has a number for one.
-/

namespace Calculator

/-- Whether a text is made of digits, points, parentheses and operators. -/
def Arithmetic (cs : List Char) : Prop :=
  ∀ c ∈ cs, c.isDigit = true ∨ c ∈ ['.', '(', ')', '+', '-', '*', '/']

theorem arithmetic_iff {cs : List Char} :
    Arithmetic cs ↔
      cs.all (fun c => c.isDigit || ['.', '(', ')', '+', '-', '*', '/'].contains c) = true := by
  simp only [Arithmetic, List.all_eq_true, Bool.or_eq_true, List.contains_iff_mem]

instance (cs : List Char) : Decidable (Arithmetic cs) := decidable_of_iff _ arithmetic_iff.symm

namespace Arithmetic

theorem of_infix {cs part : List Char} (h : Arithmetic cs) (hpart : part <:+: cs) :
    Arithmetic part := fun c hc => h c (hpart.subset hc)

/-- Characters of arithmetic are not blank. -/
theorem isBlank_eq_false {cs : List Char} (h : Arithmetic cs) : ∀ c ∈ cs, isBlank c = false := by
  intro c hc
  rcases h c hc with hdigit | hsymbol
  · obtain ⟨hlow, hhigh⟩ := Char.isDigit_iff_toNat.mp hdigit
    have hlow : 48 ≤ c.toNat := hlow
    have hhigh : c.toNat ≤ 57 := hhigh
    rw [Bool.eq_false_iff, ne_eq]
    simp only [isBlank, Bool.or_eq_true, Bool.and_eq_true, decide_eq_true_eq, beq_iff_eq]
    omega
  · simp only [List.mem_cons, List.not_mem_nil, or_false] at hsymbol
    rcases hsymbol with rfl | rfl | rfl | rfl | rfl | rfl | rfl <;> rfl

/-- Only a point can be passed over. -/
theorem eq_point_of_notice {c : Char} (h : Arithmetic [c]) (hsymbol : Symbol.ofChar? c = none)
    (hdigit : c.isDigit = false) : c = '.' := by
  rcases h c (List.mem_singleton_self c) with hc | hc
  · rw [hdigit] at hc
    cases hc
  · simp only [List.mem_cons, List.not_mem_nil, or_false] at hc
    rcases hc with rfl | hc
    · rfl
    · rcases hc with rfl | rfl | rfl | rfl | rfl | rfl <;> cases hsymbol

end Arithmetic

/-- In front of the items is `front`: if they begin with a point, no digit is there to which it
could belong. -/
theorem Tiled.noticesOf_eq_nil {n : Nat} {cs : List Char} {is : List Item} (h : Tiled n cs is)
    {front : List Char} (hchars : Arithmetic cs) (hbehind : PointsBehindDigits (front ++ cs))
    (hstart : '.' ∈ cs.head? → ∀ d ∈ front.getLast?, d.isDigit = false) : noticesOf is = [] := by
  induction h generalizing front with
  | blank => rfl
  | @item n gap part rest i is hgap hi hlo hhi his ih =>
      have hnone : gap = [] := by
        refine List.eq_nil_iff_forall_not_mem.mpr fun c hc => ?_
        have hblank := hchars.isBlank_eq_false c (by simp [hc])
        rw [isBlank_of_isSpace (hgap c hc)] at hblank
        cases hblank
      subst hnone
      rw [List.nil_append] at hchars hbehind hstart
      have hrest : Arithmetic rest := hchars.of_infix (List.suffix_append part rest).isInfix
      rw [← List.append_assoc] at hbehind
      cases hi with
      | @notice c s _ hspace hsymbol hdigit =>
          have hfirst : Arithmetic [c] := hchars.of_infix (List.prefix_append [c] rest).isInfix
          have hpoint : c = '.' := hfirst.eq_point_of_notice hsymbol hdigit
          subst hpoint
          rw [List.append_assoc] at hbehind
          obtain ⟨d, hd, hdigit⟩ := PointsBehindDigits.getLast?_isDigit hbehind
          rw [hstart rfl d hd] at hdigit
          cases hdigit
      | @symbol c v s _ hsymbol =>
          refine ih hrest hbehind fun _ d hd => ?_
          rw [List.getLast?_concat] at hd
          cases hd
          exact isDigit_of_ofChar? hsymbol
      | @number literal s _ hliteral hnext =>
          -- a point behind a number would have been part of it
          refine ih hrest hbehind fun hpoint => ?_
          cases hnext '.' hpoint

theorem noticesOf_itemsOf_eq_nil {text : String} (hchars : Arithmetic text.toList)
    (hbehind : PointsBehindDigits text.toList) : noticesOf (itemsOf text) = [] := by
  have hstart : '.' ∈ text.toList.head? → ∀ d ∈ ([] : List Char).getLast?, d.isDigit = false :=
    fun _ _ hd => by cases hd
  exact (tiled_itemsOf text).noticesOf_eq_nil hchars hbehind hstart

theorem Calculation.notices_of_ofText {text : String} {calculation : Calculation}
    (h : ofText text = .ok calculation) : calculation.notices = noticesOf (itemsOf text) := by
  rw [ofText_eq] at h
  split at h
  · cases h
  · split at h
    · cases h
    · cases h
      rfl

/-- A text without items is white space. -/
theorem blank_of_itemsOf_eq_nil {text : String} (h : itemsOf text = []) : Blank text.toList := by
  have htiled := tiled_itemsOf text
  rw [h] at htiled
  generalize text.toList = cs at htiled
  cases htiled with
  | blank hgap => exact hgap

/-- **A text of arithmetic has a value or a fault**, and nothing in it is passed over. -/
theorem Arithmetic.value_or_fault {text : String} (hchars : Arithmetic text.toList)
    (hbehind : PointsBehindDigits text.toList) (hne : text ≠ "") :
    (∃ x, Calculation.ofText text = .ok ⟨some x, []⟩) ∨
      ∃ fault, Calculation.ofText text = .error fault := by
  have hnotices : noticesOf (itemsOf text) = [] := noticesOf_itemsOf_eq_nil hchars hbehind
  cases hvalue : Calculation.ofText text with
  | error fault => exact .inr ⟨fault, rfl⟩
  | ok calculation =>
      obtain ⟨value, notices⟩ := calculation
      have hnone : notices = [] := (Calculation.notices_of_ofText hvalue).trans hnotices
      subst hnone
      cases value with
      | some x => exact .inl ⟨x, rfl⟩
      | none =>
          -- without a token and without a notice there would be white space only
          have hitems := perm_tokensOf_noticesOf (itemsOf text)
          rw [(Calculation.ofText_eq_ok_none_iff.mp hvalue).1, hnotices] at hitems
          have hblank : Blank text.toList := blank_of_itemsOf_eq_nil hitems.eq_nil
          have hnil : text.toList ≠ [] := fun hnil => hne (String.toList_inj.mp hnil)
          refine absurd (List.eq_nil_iff_forall_not_mem.mpr fun c hc => ?_) hnil
          have hnot := hchars.isBlank_eq_false c hc
          rw [isBlank_of_isSpace (hblank c hc)] at hnot
          cases hnot

end Calculator
