import Calculator.Proofs.Keypad.Typing
import Calculator.Proofs.Token.Arithmetic

/-!
# What is typed is what is shown

Where every point stands behind a digit, a key adds to the screen the character that is on it. Only
a point can be refused: the flag goes up with a point and goes down with an operator, and a
parenthesis leaves it alone, although the number behind one is another number. So a text is shown
as it was typed exactly if between any two of its points there is an operator,
`Screen.typed_text_iff`.
-/

namespace Calculator

/-- Whether a text is made of symbols and of runs that are numbers. -/
structure WellFormed (cs : List Char) : Prop where
  /-- Every character is part of a token. -/
  chars : ∀ c ∈ cs, c.isDigit = true ∨ c ∈ ['.', '(', ')', '+', '-', '*', '/']
  /-- Every run of digits and points begins with a digit and has at most one point. -/
  runs : ∀ run, IsRunOf run cs → run.head?.any Char.isDigit = true ∧ run.count '.' ≤ 1

/-- Whether between any two points of a text there is an operator. -/
def PointsParted (cs : List Char) : Prop :=
  ∀ middle, '.' :: (middle ++ ['.']) <:+: cs → ∃ c ∈ middle, c ∈ Key.operators

/-- What is behind the last operator of a text. -/
def behindOperator (cs : List Char) : List Char := cs.rtakeWhile fun c => !Key.operators.contains c

theorem wellFormed_iff {cs : List Char} :
    WellFormed cs ↔
      cs.all (fun c => c.isDigit || ['.', '(', ')', '+', '-', '*', '/'].contains c) = true ∧
      ∀ i ≤ cs.length, (cs.take i).getLast?.any isNumberChar = false →
        let run := (cs.drop i).takeWhile isNumberChar
        run ≠ [] → run.head?.any Char.isDigit = true ∧ run.count '.' ≤ 1 := by
  rw [← arithmetic_iff]
  constructor
  · rintro ⟨hchars, hruns⟩
    refine ⟨hchars, fun i hi hbefore hne => hruns _ (isRunOf_iff.mpr ⟨i, hi, rfl, hne, ?_⟩)⟩
    exact (Option.any_eq_false _ _).mp hbefore
  · rintro ⟨hchars, hruns⟩
    refine ⟨hchars, fun run hrun => ?_⟩
    obtain ⟨i, hi, rfl, hne, hbefore⟩ := isRunOf_iff.mp hrun
    exact hruns i hi ((Option.any_eq_false _ _).mpr hbefore) hne

instance (cs : List Char) : Decidable (WellFormed cs) := decidable_of_iff _ wellFormed_iff.symm

/-- A run with one point has a digit before it. -/
theorem WellFormed.behindDigits {cs : List Char} (h : WellFormed cs) : PointsBehindDigits cs := by
  rintro front ⟨rest, hcs⟩
  rw [List.append_assoc, List.singleton_append] at hcs
  have hrun : IsRunOf (lastRun front ++ '.' :: rest.takeWhile isNumberChar) cs := by
    rw [← hcs]
    exact isRunOf_lastRun_append rfl
  obtain ⟨hhead, hcount⟩ := h.runs _ hrun
  rw [List.count_append, List.count_cons_self] at hcount
  rcases List.eq_nil_or_concat (lastRun front) with hnil | ⟨run, d, hconcat⟩
  · rw [hnil] at hhead
    cases hhead
  · rw [List.concat_eq_append] at hconcat
    have hmem : d ∈ lastRun front := by
      rw [hconcat]
      exact List.mem_append_right _ (List.mem_singleton_self d)
    have hlast : d ∈ front.getLast? := by
      obtain ⟨before, hfront, -⟩ := exists_append_lastRun front
      rw [hfront, hconcat, ← List.append_assoc, List.getLast?_concat]
      rfl
    refine ⟨d, hlast, ?_⟩
    rcases isNumberChar_iff.mp (isNumberChar_of_mem_lastRun hmem) with hdigit | rfl
    · exact hdigit
    · have hpos : 0 < (lastRun front).count '.' := List.count_pos_iff.mpr hmem
      omega

theorem Arithmetic.not_mem_commands {cs : List Char} (h : Arithmetic cs) :
    ∀ c ∈ cs, c ∉ Key.commands := by
  intro c hc hcommand
  simp only [Key.commands, List.mem_cons, List.not_mem_nil, or_false] at hcommand
  rcases h c hc with hdigit | hsymbol
  · rcases hcommand with rfl | rfl | rfl | rfl <;> cases hdigit
  · rcases hcommand with rfl | rfl | rfl | rfl <;> exact absurd hsymbol (by decide)

theorem WellFormed.not_mem_commands {cs : List Char} (h : WellFormed cs) :
    ∀ c ∈ cs, c ∉ Key.commands := Arithmetic.not_mem_commands h.chars

/-! ## Points and operators -/

theorem behindOperator_concat_of_mem {cs : List Char} {c : Char} (hc : c ∈ Key.operators) :
    behindOperator (cs ++ [c]) = [] := List.rtakeWhile_concat_neg _ _ _ (by simpa using hc)

theorem behindOperator_concat_of_not_mem {cs : List Char} {c : Char} (hc : c ∉ Key.operators) :
    behindOperator (cs ++ [c]) = behindOperator cs ++ [c] :=
  List.rtakeWhile_concat_pos _ _ _ (by simpa using hc)

/-- A point has no operator behind it exactly if it stands behind the last. -/
theorem point_mem_behindOperator_iff {cs : List Char} :
    '.' ∈ behindOperator cs ↔ ∃ middle, '.' :: middle <:+ cs ∧ ∀ c ∈ middle, c ∉ Key.operators := by
  constructor
  · intro h
    obtain ⟨before, middle, hcut⟩ := List.append_of_mem h
    refine ⟨middle, ?_, ?_⟩
    · have hsuffix : behindOperator cs <:+ cs := List.rtakeWhile_suffix _ _
      exact (List.suffix_append before _).trans (hcut ▸ hsuffix)
    · intro c hc
      have hmem : c ∈ behindOperator cs := by
        rw [hcut]
        exact List.mem_append_right _ (List.mem_cons_of_mem _ hc)
      simpa using List.mem_rtakeWhile_imp hmem
  · rintro ⟨middle, ⟨before, rfl⟩, hmiddle⟩
    have hnone : ∀ c ∈ '.' :: middle, (!Key.operators.contains c) = true :=
      List.forall_mem_cons.mpr ⟨rfl, fun c hc => by simpa using hmiddle c hc⟩
    rw [behindOperator, rtakeWhile_append_of_pos hnone]
    exact List.mem_append_right _ (List.mem_cons_self ..)

theorem pointsParted_concat {cs : List Char} {c : Char} :
    PointsParted (cs ++ [c]) ↔ PointsParted cs ∧ (c = '.' → '.' ∉ behindOperator cs) := by
  constructor
  · intro h
    refine ⟨fun middle hmiddle => h middle (hmiddle.trans (List.infix_append [] cs [c])), ?_⟩
    rintro rfl hmem
    obtain ⟨middle, ⟨before, hcs⟩, hnone⟩ := point_mem_behindOperator_iff.mp hmem
    have hinfix : '.' :: (middle ++ ['.']) <:+: cs ++ ['.'] := by
      refine ⟨before, [], ?_⟩
      rw [List.append_nil, ← hcs, List.append_assoc, List.cons_append]
    obtain ⟨c, hc, hoperator⟩ := h middle hinfix
    exact hnone c hc hoperator
  · -- two points are in the text already, or the second is the one that is added
    rintro ⟨h, hlast⟩ middle hmiddle
    rcases List.infix_concat_iff.mp hmiddle with hsuffix | hmiddle
    · rw [← List.cons_append] at hsuffix
      rcases List.suffix_concat_iff.mp hsuffix with hnil | ⟨front, hfront, hcs⟩
      · simp at hnil
      · obtain ⟨rfl, hc⟩ := List.append_inj' hfront rfl
        have hnot : '.' ∉ behindOperator cs := hlast (List.singleton_inj.mp hc).symm
        by_contra hnone
        refine hnot (point_mem_behindOperator_iff.mpr ⟨middle, hcs, fun d hd hoperator => ?_⟩)
        exact hnone ⟨d, hd, hoperator⟩
    · exact h middle hmiddle

namespace Screen

/-- **The flag is up** exactly if a point stands behind the last operator. -/
theorem hasDot_typed_iff {cs : List Char} (h : ∀ c ∈ cs, c ∉ Key.commands) :
    (typed cs).hasDot = true ↔ '.' ∈ behindOperator cs := by
  induction cs using List.reverseRecOn with
  | nil => exact ⟨fun hflag => Bool.noConfusion hflag, fun hmem => absurd hmem List.not_mem_nil⟩
  | append_singleton cs c ih =>
      obtain ⟨hcs, hc⟩ := List.forall_mem_append.mp h
      have hc : c ∉ Key.commands := hc c (List.mem_singleton_self c)
      rw [typed_concat]
      rcases Key.ofChar_of_not_mem_commands hc with ⟨hoperator, hkey⟩ | ⟨rfl, hkey⟩ |
        ⟨hoperator, hdot, hkey⟩ <;> rw [hkey]
      · rw [behindOperator_concat_of_mem hoperator]
        exact ⟨fun hflag => Bool.noConfusion hflag, fun hmem => absurd hmem List.not_mem_nil⟩
      · rw [behindOperator_concat_of_not_mem (by decide)]
        refine ⟨fun _ => List.mem_append_right _ (List.mem_singleton_self _), fun _ => ?_⟩
        show (typed cs).dot.hasDot = true
        cases hflag : (typed cs).hasDot with
        | true => rwa [dot, if_pos hflag]
        | false => rw [dot, if_neg (Bool.eq_false_iff.mp hflag)]
      · rw [behindOperator_concat_of_not_mem hoperator, List.mem_append, List.mem_singleton,
          or_iff_left hdot.symm]
        exact ih hcs

/-- A digit that was typed last is the latest entry. -/
theorem endsWithDigit_typed {cs : List Char} {d : Char} (hlast : d ∈ cs.getLast?)
    (hd : d.isDigit = true) : (typed cs).entries.head?.any endsWithDigit = true := by
  obtain ⟨front, rfl⟩ := List.getLast?_eq_some_iff.mp hlast
  rw [typed_concat, Key.ofChar_of_isDigit hd]
  show endsWithDigit d.toString = true
  rw [endsWithDigit, Char.toString_eq_singleton, String.toList_singleton]
  exact hd

/-- Every key that types, other than the point, shows its character. -/
theorem text_typed_concat {cs : List Char} {c : Char} (hc : c ∉ Key.commands) (hdot : c ≠ '.') :
    (typed (cs ++ [c])).text.toList = (typed cs).text.toList ++ [c] := by
  rw [typed_concat]
  rcases Key.ofChar_of_not_mem_commands hc with ⟨-, hkey⟩ | ⟨rfl, -⟩ | ⟨-, -, hkey⟩
  · rw [hkey]
    exact toList_text_char _ c _
  · exact absurd rfl hdot
  · rw [hkey]
    exact toList_text_char _ c _

/-- Behind a digit a point is shown as it is, unless it is refused. -/
theorem text_typed_point {cs : List Char} (hflag : (typed cs).hasDot = false)
    (hlast : ∃ d ∈ cs.getLast?, d.isDigit = true) :
    (typed (cs ++ ['.'])).text.toList = (typed cs).text.toList ++ ['.'] := by
  obtain ⟨d, hd, hdigit⟩ := hlast
  rw [typed_concat]
  show (typed cs).dot.text.toList = (typed cs).text.toList ++ ['.']
  rw [dot, if_neg (Bool.eq_false_iff.mp hflag), if_pos (endsWithDigit_typed hd hdigit),
    toList_text_cons]
  rfl

theorem typed_point_of_hasDot {cs : List Char} (hflag : (typed cs).hasDot = true) :
    typed (cs ++ ['.']) = typed cs := by
  rw [typed_concat]
  show (typed cs).dot = typed cs
  rw [dot, if_pos hflag]

/-- A text is shown as it was typed or, where a point was refused, shorter. -/
theorem text_typed {cs : List Char} (h : ∀ c ∈ cs, c ∉ Key.commands)
    (hbehind : PointsBehindDigits cs) :
    (typed cs).text.toList.length ≤ cs.length ∧
      ((typed cs).text.toList = cs ↔ PointsParted cs) := by
  induction cs using List.reverseRecOn with
  | nil =>
      refine ⟨Nat.le_refl 0, fun _ middle hmiddle => ?_, fun _ => rfl⟩
      simp at hmiddle
  | append_singleton cs c ih =>
      obtain ⟨hcs, hc⟩ := List.forall_mem_append.mp h
      obtain ⟨hfront, hlast⟩ := pointsBehindDigits_concat.mp hbehind
      obtain ⟨hlength, htext⟩ := ih hcs hfront
      have hflag := hasDot_typed_iff hcs
      rw [pointsParted_concat, List.length_append]
      by_cases hdot : c = '.'
      · subst hdot
        cases hrefused : (typed cs).hasDot with
        | true =>
            -- the text stays behind what is typed, and no later key can make up for it
            rw [typed_point_of_hasDot hrefused]
            refine ⟨Nat.le_add_right_of_le hlength, fun heq => ?_, fun hparted => ?_⟩
            · rw [heq, List.length_append, List.length_singleton] at hlength
              omega
            · exact absurd (hflag.mp hrefused) (hparted.2 rfl)
        | false =>
            have hnot : '.' ∉ behindOperator cs := by
              rw [← hflag, hrefused]
              exact Bool.false_ne_true
            rw [text_typed_point hrefused (hlast rfl), List.append_left_inj, List.length_append]
            exact ⟨Nat.add_le_add_right hlength 1, htext.trans (and_iff_left fun _ => hnot).symm⟩
      · rw [text_typed_concat (hc c (List.mem_singleton_self c)) hdot, List.append_left_inj,
          List.length_append]
        exact ⟨Nat.add_le_add_right hlength 1,
          htext.trans (and_iff_left fun heq => absurd heq hdot).symm⟩

/-- A point is refused exactly if there is one already, with no operator since. -/
theorem typed_point_eq_iff {cs : List Char} (h : ∀ c ∈ cs, c ∉ Key.commands) :
    typed (cs ++ ['.']) = typed cs ↔
      ∃ middle, '.' :: middle <:+ cs ∧ ∀ c ∈ middle, c ∉ Key.operators := by
  rw [← point_mem_behindOperator_iff, ← hasDot_typed_iff h]
  constructor
  · intro heq
    have hpoint : ∀ c ∈ cs ++ ['.'], c ∉ Key.commands :=
      List.forall_mem_append.mpr ⟨h, List.forall_mem_singleton.mpr (by decide)⟩
    rw [← heq, hasDot_typed_iff hpoint, behindOperator_concat_of_not_mem (by decide)]
    exact List.mem_append_right _ (List.mem_singleton_self _)
  · exact typed_point_of_hasDot

/-- **A well-formed text is shown as it was typed** exactly if between any two of its points there
is an operator: a point is refused behind another one unless an operator has come in between. -/
theorem typed_text_iff {cs : List Char} (h : WellFormed cs) :
    ((typed cs).text.toList = cs ↔ PointsParted cs) ∧
      ∀ front, front ++ ['.'] <+: cs →
        (typed (front ++ ['.']) = typed front ↔
          ∃ middle, '.' :: middle <:+ front ∧ ∀ c ∈ middle, c ∉ Key.operators) := by
  refine ⟨(text_typed h.not_mem_commands h.behindDigits).2, fun front hfront => ?_⟩
  refine typed_point_eq_iff fun c hc => h.not_mem_commands c ?_
  exact hfront.subset (List.mem_append_left _ hc)

theorem typed_text_of_parted_group :
    WellFormed "2.5*(1.5+3)(4)".toList ∧
      (typed "2.5*(1.5+3)(4)".toList).text.toList = "2.5*(1.5+3)(4)".toList ∧
      PointsParted "2.5*(1.5+3)(4)".toList :=
  ⟨by decide +kernel, by decide +kernel,
    (typed_text_iff (by decide +kernel)).1.mp (by decide +kernel)⟩

/-- In parentheses another number is typed, but its point is refused. -/
theorem point_refused_in_group :
    WellFormed "1.5(2.5)".toList ∧ (typed "1.5(2.5)".toList).text = "1.5(25)" := by
  decide +kernel

end Screen

end Calculator
