import Calculator.Proofs.Token.Joining
import Calculator.Proofs.Token.Partition
import Mathlib.Data.List.DropRight

/-!
# Runs of digits and points

A number is a run of digits and points that begins with a digit. While a text is typed, only its
last run is still open: whether the numbers have one point each is decided run by run, by what has
been typed (`PointsAlone.count_of_number`). And where every point is behind a digit, the last run is
a number (`PointsBehindDigits.exists_number`), so that nothing less would do.
-/

namespace Calculator

/-- The digits and points at the end of a text. -/
def lastRun (cs : List Char) : List Char := cs.rtakeWhile isNumberChar

/-- Whether no run of a text has two points. -/
def PointsAlone (cs : List Char) : Prop := ∀ front, front <+: cs → (lastRun front).count '.' ≤ 1

/-- Whether every point of a text stands right behind a digit. -/
def PointsBehindDigits (cs : List Char) : Prop :=
  ∀ front, front ++ ['.'] <+: cs → ∃ d ∈ front.getLast?, d.isDigit = true

/-- What stands in front of a point ends with a digit. -/
theorem PointsBehindDigits.getLast?_isDigit {front rest : List Char}
    (h : PointsBehindDigits (front ++ '.' :: rest)) : ∃ d ∈ front.getLast?, d.isDigit = true := by
  refine h front ⟨rest, ?_⟩
  rw [List.append_assoc, List.singleton_append]

theorem lastRun_concat_of_pos {cs : List Char} {c : Char} (hc : isNumberChar c = true) :
    lastRun (cs ++ [c]) = lastRun cs ++ [c] := List.rtakeWhile_concat_pos _ _ _ hc

theorem lastRun_concat_of_neg {cs : List Char} {c : Char} (hc : isNumberChar c = false) :
    lastRun (cs ++ [c]) = [] := List.rtakeWhile_concat_neg _ _ _ (Bool.eq_false_iff.mp hc)

theorem isNumberChar_of_mem_lastRun {cs : List Char} {c : Char} (h : c ∈ lastRun cs) :
    isNumberChar c = true := List.mem_rtakeWhile_imp h

theorem lastRun_sublist (cs : List Char) : (lastRun cs).Sublist cs :=
  (List.rtakeWhile_suffix _ _).sublist

theorem rtakeWhile_append_of_pos {α : Type} {p : α → Bool} {front run : List α}
    (hrun : ∀ a ∈ run, p a = true) :
    (front ++ run).rtakeWhile p = front.rtakeWhile p ++ run := by
  induction run using List.reverseRecOn with
  | nil => rw [List.append_nil, List.append_nil]
  | append_singleton run a ih =>
      obtain ⟨hrun, ha⟩ := List.forall_mem_append.mp hrun
      rw [← List.append_assoc, List.rtakeWhile_concat_pos _ _ _ (ha a (List.mem_singleton_self a)),
        ih hrun, List.append_assoc]

/-- The last run goes on with a run that is typed behind it. -/
theorem lastRun_append {front run : List Char} (hrun : ∀ c ∈ run, isNumberChar c = true) :
    lastRun (front ++ run) = lastRun front ++ run := rtakeWhile_append_of_pos hrun

/-- In front of the last run stands nothing with which a number goes on. -/
theorem exists_append_lastRun (cs : List Char) :
    ∃ front, cs = front ++ lastRun cs ∧ ∀ c ∈ front.getLast?, isNumberChar c = false := by
  refine ⟨cs.rdropWhile isNumberChar, List.rdropWhile_append_rtakeWhile.symm, ?_⟩
  intro c hc
  obtain ⟨hne, rfl⟩ := List.mem_getLast?_eq_getLast hc
  exact Bool.eq_false_iff.mpr (List.rdropWhile_last_not _ _ hne)

/-! ## Runs that go on to neither side -/

/-- Whether a part of a text is a run of digits and points that goes on to neither side. -/
def IsRunOf (run cs : List Char) : Prop :=
  ∃ before after, cs = before ++ run ++ after ∧ run ≠ [] ∧ (∀ c ∈ run, isNumberChar c = true) ∧
    (∀ c ∈ before.getLast?, isNumberChar c = false) ∧ ∀ c ∈ after.head?, isNumberChar c = false

/-- Where such a run begins says which it is. -/
theorem isRunOf_iff {run cs : List Char} :
    IsRunOf run cs ↔ ∃ i ≤ cs.length, run = (cs.drop i).takeWhile isNumberChar ∧ run ≠ [] ∧
      ∀ c ∈ (cs.take i).getLast?, isNumberChar c = false := by
  constructor
  · rintro ⟨before, after, rfl, hne, hrun, hbefore, hafter⟩
    refine ⟨before.length, ?_, ?_, hne, ?_⟩
    · simp only [List.length_append]
      omega
    · rw [List.append_assoc, List.drop_left, takeWhile_append_of_head hrun hafter]
    · rw [List.append_assoc, List.take_left]
      exact hbefore
  · rintro ⟨i, -, rfl, hne, hbefore⟩
    refine ⟨cs.take i, (cs.drop i).dropWhile isNumberChar, ?_, hne,
      List.all_eq_true.mp List.all_takeWhile, hbefore, fun c hc => head?_dropWhile hc⟩
    rw [List.append_assoc, List.takeWhile_append_dropWhile, List.take_append_drop]

/-- What is typed last of a run continues to where the run ends. -/
theorem isRunOf_lastRun_append {front rest : List Char} {c : Char} (hc : isNumberChar c = true) :
    IsRunOf (lastRun front ++ c :: rest.takeWhile isNumberChar) (front ++ c :: rest) := by
  obtain ⟨before, hfront, hbefore⟩ := exists_append_lastRun front
  refine ⟨before, rest.dropWhile isNumberChar, ?_, by simp, ?_, hbefore,
    fun d hd => head?_dropWhile hd⟩
  · rw [← List.append_assoc before, ← hfront, List.append_assoc, List.cons_append,
      List.takeWhile_append_dropWhile]
  · have htail : ∀ d ∈ rest.takeWhile isNumberChar, isNumberChar d = true :=
      List.all_eq_true.mp List.all_takeWhile
    exact List.forall_mem_append.mpr
      ⟨fun d => isNumberChar_of_mem_lastRun, List.forall_mem_cons.mpr ⟨hc, htail⟩⟩

/-! ## One point for each run -/

theorem PointsAlone.of_front {cs front : List Char} (h : PointsAlone cs) (hfront : front <+: cs) :
    PointsAlone front := fun front' hfront' => h front' (hfront'.trans hfront)

theorem pointsAlone_concat {cs : List Char} {c : Char} :
    PointsAlone (cs ++ [c]) ↔ PointsAlone cs ∧ (lastRun (cs ++ [c])).count '.' ≤ 1 := by
  constructor
  · exact fun h => ⟨h.of_front (List.prefix_append cs [c]), h _ List.prefix_rfl⟩
  · rintro ⟨h, hlast⟩ front hfront
    rcases List.prefix_concat_iff.mp hfront with rfl | hfront
    · exact hlast
    · exact h front hfront

/-- A run that is typed behind a text counts with its last run. -/
theorem PointsAlone.append {cs run : List Char} (h : PointsAlone cs)
    (hrun : ∀ c ∈ run, isNumberChar c = true) (hcount : (lastRun cs ++ run).count '.' ≤ 1) :
    PointsAlone (cs ++ run) := by
  induction run using List.reverseRecOn with
  | nil =>
      rw [List.append_nil]
      exact h
  | append_singleton run c ih =>
      rw [← lastRun_append hrun] at hcount
      rw [← List.append_assoc] at hcount ⊢
      obtain ⟨hfront, hc⟩ := List.forall_mem_append.mp hrun
      refine pointsAlone_concat.mpr ⟨ih hfront ?_, hcount⟩
      rw [lastRun_concat_of_pos (hc c (List.mem_singleton_self c)), lastRun_append hfront,
        List.count_append] at hcount
      omega

theorem pointsAlone_of_count_le {cs : List Char} (h : cs.count '.' ≤ 1) : PointsAlone cs := by
  intro front hfront
  have hrun : (lastRun front).count '.' ≤ front.count '.' := (lastRun_sublist front).count_le '.'
  have hcs : front.count '.' ≤ cs.count '.' := hfront.sublist.count_le '.'
  omega

/-- Where no run has two points, no number does. -/
theorem PointsAlone.count_of_number {text literal : String} {s : Span}
    (h : PointsAlone text.toList) (ht : ⟨.number literal, s⟩ ∈ tokensOf (itemsOf text)) :
    IsLiteral literal ∧ literal.toList.count '.' ≤ 1 := by
  obtain ⟨before, part, after, htext, hspells, -⟩ :=
    (tiled_itemsOf text).spells_of_mem (mem_tokensOf.mp ht)
  have hpart : part = literal.toList := hspells.eq_text
  have hnumber : IsLiteral literal := hspells.of_number.1
  subst hpart
  refine ⟨hnumber, ?_⟩
  have hle : (lastRun (before ++ literal.toList)).count '.' ≤ 1 := h _ ⟨after, htext.symm⟩
  rw [lastRun_append hnumber.isNumberChar, List.count_append] at hle
  omega

/-! ## Points behind digits -/

theorem PointsBehindDigits.of_front {cs front : List Char} (h : PointsBehindDigits cs)
    (hfront : front <+: cs) : PointsBehindDigits front :=
  fun front' hfront' => h front' (hfront'.trans hfront)

theorem pointsBehindDigits_concat {cs : List Char} {c : Char} :
    PointsBehindDigits (cs ++ [c]) ↔
      PointsBehindDigits cs ∧ (c = '.' → ∃ d ∈ cs.getLast?, d.isDigit = true) := by
  constructor
  · intro h
    refine ⟨h.of_front (List.prefix_append cs [c]), ?_⟩
    rintro rfl
    exact h cs List.prefix_rfl
  · rintro ⟨h, hlast⟩ front hfront
    rcases List.prefix_concat_iff.mp hfront with heq | hfront
    · obtain ⟨rfl, hc⟩ := List.append_inj' heq rfl
      exact hlast (List.singleton_inj.mp hc).symm
    · exact h front hfront

/-- Where points are behind digits, the last run begins with a digit. -/
theorem PointsBehindDigits.isLiteral_lastRun {cs : List Char} (h : PointsBehindDigits cs)
    (hne : lastRun cs ≠ []) : IsLiteral (.ofList (lastRun cs)) := by
  obtain ⟨front, hcs, hfront⟩ := exists_append_lastRun cs
  obtain ⟨c, run, hrun⟩ := List.exists_cons_of_ne_nil hne
  have hnumber : ∀ d ∈ c :: run, isNumberChar d = true := by
    rw [← hrun]
    exact fun d => isNumberChar_of_mem_lastRun
  obtain ⟨hc, htail⟩ := List.forall_mem_cons.mp hnumber
  refine ⟨c, run, by rw [String.toList_ofList, hrun], ?_, htail⟩
  rcases isNumberChar_iff.mp hc with hdigit | rfl
  · exact hdigit
  · -- a point would have a digit before it, and the run would have begun there
    rw [hcs, hrun] at h
    obtain ⟨d, hd, hdigit⟩ := h.getLast?_isDigit
    have hnot : isNumberChar d = false := hfront d hd
    rw [isNumberChar_of_isDigit hdigit] at hnot
    cases hnot

/-- **The last run is a number** where points are behind digits. -/
theorem PointsBehindDigits.exists_number {text : String} (h : PointsBehindDigits text.toList)
    (hne : lastRun text.toList ≠ []) :
    ∃ s, ⟨.number (.ofList (lastRun text.toList)), s⟩ ∈ tokensOf (itemsOf text) := by
  obtain ⟨front, hcs, hfront⟩ := exists_append_lastRun text.toList
  have hliteral : IsLiteral (.ofList (lastRun text.toList)) := h.isLiteral_lastRun hne
  have htext : text = .ofList front ++ .ofList (lastRun text.toList) := by
    rw [← String.toList_inj, String.toList_append, String.toList_ofList, String.toList_ofList]
    exact hcs
  -- the text in front of the run ends where no number goes on
  have hapart : Apart (.ofList front) (.ofList (lastRun text.toList)) := by
    refine apart_of_getLast? ?_ _
    rw [String.toList_ofList]
    exact hfront
  generalize lastRun text.toList = run at htext hliteral hapart
  rw [htext, tokensOf_itemsOf_append hapart, itemsOf_of_literal hliteral]
  exact ⟨_, List.mem_append_right _ (List.mem_singleton_self _)⟩

end Calculator
