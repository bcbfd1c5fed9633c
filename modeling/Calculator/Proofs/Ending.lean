import Calculator.Proofs.Calculation
import Calculator.Proofs.Forest.Slices
import Calculator.Proofs.Number.Literal
import Mathlib.Data.List.Basic

/-!
# How a calculation ends

A calculation comes to nothing, to a value, to a fault of its tokens or to one of its numbers. The
tokens alone say which: whether there are any, whether they form a forest, and whether a number
among them has more than one point (`Calculation.ofText_ending`). Of several such numbers the
leftmost is to blame, however deep in the trees it is.
-/

namespace Calculator

/-- Whether a token is a number with more than one point. -/
def Located.IsMalformed (t : Token) : Prop :=
  ∃ literal, t.val = .number literal ∧ 2 ≤ literal.toList.count '.'

/-- Whether of the malformed numbers among some tokens this is the leftmost. -/
structure IsLeftmostMalformed (ts : List Token) (t : Token) : Prop where
  mem : t ∈ ts
  malformed : t.IsMalformed
  /-- Every other one stands behind it. -/
  leftmost : ∀ u ∈ ts, u.IsMalformed → u = t ∨ t.span.hi ≤ u.span.lo

theorem isLiteral_of_mem_tokensOf {text literal : String} {s : Span}
    (h : ⟨.number literal, s⟩ ∈ tokensOf (itemsOf text)) : IsLiteral literal := by
  obtain ⟨part, _, hspells, -⟩ := (tiled_itemsOf text).slice?_of_mem (mem_tokensOf.mp h)
  exact hspells.of_number.1

/-- The numbers of a text that have no value are those with more than one point. -/
theorem isMalformed_iff {text literal : String} {s : Span}
    (h : ⟨.number literal, s⟩ ∈ tokensOf (itemsOf text)) :
    Located.IsMalformed ⟨.number literal, s⟩ ↔ Number.valueOf? literal.toList = none := by
  rw [← Option.not_isSome_iff_eq_none, Number.isSome_valueOf?_iff (isLiteral_of_mem_tokensOf h)]
  constructor
  · intro hmalformed
    obtain ⟨_, hliteral, hcount⟩ := hmalformed
    cases hliteral
    omega
  · intro hcount
    exact ⟨literal, rfl, by omega⟩

/-- Numbers stand in the order in which their tokens do. -/
theorem InOrder.numbersOf {us : List Token} (h : InOrder us) :
    (numbersOf us).Pairwise fun n m => n.span.hi ≤ m.span.lo := by
  refine List.Pairwise.filterMap _ ?_ h
  intro ⟨v, s⟩ ⟨w, t⟩ hst n hn m hm
  cases v with
  | number literal =>
      cases w with
      | number literal' =>
          cases hn
          cases hm
          exact hst
      | op o => cases hm
      | opening => cases hm
      | closing => cases hm
  | op o => cases hn
  | opening => cases hn
  | closing => cases hn

/-- The first number of a text without a value is the leftmost malformed one. -/
theorem exists_leftmost_of_firstMalformed {text : String} {fault : Located ValueFault}
    (h : firstMalformed (numbersOf (tokensOf (itemsOf text))) = some fault) :
    ∃ literal s, fault = ⟨.invalidNumber literal, s⟩ ∧
      IsLeftmostMalformed (tokensOf (itemsOf text)) ⟨.number literal, s⟩ := by
  obtain ⟨before, ⟨literal, s⟩, after, hnumbers, hbefore, hnone, rfl⟩ :=
    firstMalformed_eq_some_iff.mp h
  have horder := (inOrder_tokensOf text).numbersOf
  rw [hnumbers] at horder
  have hmem : ⟨.number literal, s⟩ ∈ tokensOf (itemsOf text) := by
    refine mem_numbersOf (n := ⟨literal, s⟩).mp ?_
    rw [hnumbers]
    simp
  refine ⟨literal, s, rfl, hmem, (isMalformed_iff hmem).mpr hnone, ?_⟩
  intro u hu hmalformed
  obtain ⟨v, place⟩ := u
  obtain ⟨other, rfl, hcount⟩ := hmalformed
  have hother : Number.valueOf? other.toList = none :=
    (isMalformed_iff hu).mp ⟨other, rfl, hcount⟩
  have hnumber : ⟨other, place⟩ ∈ before ++ ⟨literal, s⟩ :: after := by
    rw [← hnumbers]
    exact mem_numbersOf.mpr hu
  rcases List.mem_append.mp hnumber with hfront | hbehind
  · have hsome := hbefore _ hfront
    rw [hother] at hsome
    cases hsome
  · rcases List.mem_cons.mp hbehind with heq | hafter
    · cases heq
      exact .inl rfl
    · have hrest := (List.pairwise_append.mp horder).2.1
      exact .inr ((List.pairwise_cons.mp hrest).1 _ hafter)

/-- There is a first number without a value if there is a malformed one. -/
theorem exists_firstMalformed_of_isMalformed {text : String} {t : Token}
    (ht : t ∈ tokensOf (itemsOf text)) (hmalformed : t.IsMalformed) :
    ∃ fault, firstMalformed (numbersOf (tokensOf (itemsOf text))) = some fault := by
  obtain ⟨v, s⟩ := t
  obtain ⟨literal, rfl, hcount⟩ := hmalformed
  have hnone : Number.valueOf? literal.toList = none :=
    (isMalformed_iff ht).mp ⟨literal, rfl, hcount⟩
  have hfind : ((numbersOf (tokensOf (itemsOf text))).find? fun n =>
      (Number.valueOf? n.val.toList).isNone).isSome = true :=
    List.find?_isSome.mpr ⟨⟨literal, s⟩, mem_numbersOf.mpr ht, by rw [hnone]; rfl⟩
  obtain ⟨n, hn⟩ := Option.isSome_iff_exists.mp hfind
  exact ⟨_, by rw [firstMalformed, hn]; rfl⟩

namespace Calculation

/-- **How a calculation ends.** It comes to nothing exactly where there is no token. It fails on a
number exactly if its tokens form a forest and one of them is malformed, and then the leftmost of
these is to blame. And it fails on its tokens exactly as they do, whatever its numbers are. -/
theorem ofText_ending (text : String) :
    ((∃ notices, ofText text = .ok ⟨none, notices⟩) ↔ tokensOf (itemsOf text) = []) ∧
      ((∃ fault, ofText text = .error (.value fault)) ↔
        (∃ trees, forestOf (tokensOf (itemsOf text)) = .ok trees) ∧
          ∃ t ∈ tokensOf (itemsOf text), t.IsMalformed) ∧
      (∀ fault, ofText text = .error (.value fault) →
        ∃ literal s, fault = ⟨.invalidNumber literal, s⟩ ∧
          IsLeftmostMalformed (tokensOf (itemsOf text)) ⟨.number literal, s⟩) ∧
      ∀ fault, ofText text = .error (.parse fault) ↔
        forestOf (tokensOf (itemsOf text)) = .error fault := by
  refine ⟨?_, ?_, ?_, ?_⟩
  · constructor
    · intro h
      obtain ⟨notices, hnotices⟩ := h
      exact (ofText_eq_ok_none_iff.mp hnotices).1
    · intro h
      exact ⟨_, ofText_eq_ok_none_iff.mpr ⟨h, rfl⟩⟩
  · constructor
    · intro h
      obtain ⟨fault, hfault⟩ := h
      obtain ⟨hforest, hfirst⟩ := ofText_eq_error_value_iff.mp hfault
      obtain ⟨literal, s, -, hleftmost⟩ := exists_leftmost_of_firstMalformed hfirst
      exact ⟨hforest, _, hleftmost.mem, hleftmost.malformed⟩
    · intro h
      obtain ⟨hforest, t, ht, hmalformed⟩ := h
      obtain ⟨fault, hfirst⟩ := exists_firstMalformed_of_isMalformed ht hmalformed
      exact ⟨fault, ofText_eq_error_value_iff.mpr ⟨hforest, hfirst⟩⟩
  · intro fault hfault
    exact exists_leftmost_of_firstMalformed (ofText_eq_error_value_iff.mp hfault).2
  · intro fault
    exact ofText_eq_error_parse_iff

/-- Of two malformed numbers the one in the group is to blame; and where the tokens are no forest,
neither. -/
theorem ofText_ending_malformed_in_group :
    ofText "2(1.2.3+4)5.6.7" = .error (.value ⟨.invalidNumber "1.2.3", .between 2 7⟩) ∧
      IsLeftmostMalformed (tokensOf (itemsOf "2(1.2.3+4)5.6.7"))
        ⟨.number "1.2.3", .between 2 7⟩ ∧
      forestOf (tokensOf (itemsOf "1.2.3+")) = .error ⟨.unexpectedEnd, .emptyAt 6⟩ ∧
      ofText "1.2.3+" = .error (.parse ⟨.unexpectedEnd, .emptyAt 6⟩) := by
  have hvalue : ofText "2(1.2.3+4)5.6.7" =
      .error (.value ⟨.invalidNumber "1.2.3", .between 2 7⟩) := by decide +kernel
  have hforest : forestOf (tokensOf (itemsOf "1.2.3+")) =
      .error ⟨.unexpectedEnd, .emptyAt 6⟩ := by decide +kernel
  obtain ⟨-, -, hblamed, -⟩ := ofText_ending "2(1.2.3+4)5.6.7"
  obtain ⟨-, -, -, hparse⟩ := ofText_ending "1.2.3+"
  obtain ⟨literal, s, heq, hleftmost⟩ := hblamed _ hvalue
  cases heq
  exact ⟨hvalue, hleftmost, hforest, (hparse _).mpr hforest⟩

end Calculation

end Calculator
