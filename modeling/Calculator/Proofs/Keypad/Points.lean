import Calculator.Proofs.Calculation
import Calculator.Proofs.Keypad.Typing
import Calculator.Proofs.Number.Display
import Calculator.Proofs.Number.Literal
import Calculator.Proofs.Token.Runs

/-!
# Points that are refused, and points that are not

The flag of a screen should know of a point in the number being typed. As long as it does
(`Screen.InStep`), no number on the screen gets two points, and none is malformed. Every key keeps
the flag in step but one: taking back an operator or a symbol uncovers an earlier number, whose
point the flag has forgotten. From there one more point makes a malformed number. So the keys that
are safe are exactly those with which no taking back loses the point, `Screen.typed_guarded_iff`.
-/

namespace Calculator

/-! ## A value that is shown -/

theorem Number.Pointed.count_le {cs : List Char} (h : Number.Pointed cs) : cs.count '.' ≤ 1 := by
  rcases h with hnone | ⟨before, d, after, rfl, hd, hbefore, hafter⟩
  · rw [List.count_eq_zero.mpr hnone]
    omega
  · have hne : d ≠ '.' := Number.ne_point_of_isDigit hd
    rw [List.count_append, List.count_cons_of_ne hne, List.count_cons_self,
      List.count_eq_zero.mpr hbefore, List.count_eq_zero.mpr hafter]

theorem Number.Pointed.behindDigits {cs : List Char} (h : Number.Pointed cs) :
    PointsBehindDigits cs := by
  rintro front ⟨rest, hfront⟩
  rw [List.append_assoc, List.singleton_append] at hfront
  rcases h with hnone | ⟨before, d, after, rfl, hd, hbefore, hafter⟩
  · refine absurd ?_ hnone
    rw [← hfront]
    exact List.mem_append_right _ (List.mem_cons_self ..)
  · have hne : d ≠ '.' := Number.ne_point_of_isDigit hd
    have hnot : '.' ∉ before ++ [d] := by
      rw [List.mem_append, List.mem_singleton]
      rintro (hmem | rfl)
      · exact hbefore hmem
      · exact hne rfl
    have hcut : (before ++ [d]) ++ '.' :: after = front ++ '.' :: rest := by
      rw [hfront, List.append_assoc, List.singleton_append]
    -- the point that is shown is the only one
    obtain ⟨hsame, -⟩ := (List.append_cons_inj_of_notMem hnot hafter).mp hcut
    refine ⟨d, ?_, hd⟩
    rw [← hsame, List.getLast?_concat]
    rfl

namespace Screen

/-- Whether the flag knows of a point in the number being typed. -/
def InStep (s : Screen) : Prop := s.hasDot = false → '.' ∉ lastRun s.text.toList

/-- Whether no number on the screen has two points. -/
def OnePoint (s : Screen) : Prop :=
  ∀ n ∈ numbersOf (tokensOf (itemsOf s.text)), n.val.toList.count '.' ≤ 1

/-- Whether points are kept out of numbers that have one, so that no number is malformed. -/
structure Guarded (s : Screen) : Prop where
  /-- No number has two points. -/
  onePoint : s.OnePoint
  /-- No calculation fails on a number. -/
  valued : ∀ fault, (s.press .equals).value.1 ≠ .error (.value fault)

/-- What the keys preserve that keep the flag in step. -/
structure Sound (s : Screen) : Prop where
  /-- No run on the screen has two points. -/
  alone : PointsAlone s.text.toList
  /-- The flag knows of a point in the last run. -/
  inStep : s.InStep

/-! ## What a point adds -/

/-- A point that is not refused comes alone behind a digit, and with a zero otherwise. -/
theorem dot_of_not_hasDot {s : Screen} (h : s.hasDot = false) :
    ∃ entry : String, s.dot = ⟨entry :: s.entries, true⟩ ∧
      (entry.toList = ['.'] ∧ (∃ d ∈ s.text.toList.getLast?, d.isDigit = true) ∨
        entry.toList = ['0', '.']) := by
  by_cases hdigit : s.entries.head?.any endsWithDigit = true
  · refine ⟨".", ?_, .inl ⟨rfl, getLast?_text_of_endsWithDigit hdigit⟩⟩
    rw [dot, if_neg (Bool.eq_false_iff.mp h), if_pos hdigit]
  · refine ⟨"0.", ?_, .inr rfl⟩
    rw [dot, if_neg (Bool.eq_false_iff.mp h), if_neg hdigit]

/-- It adds one point to the number being typed. -/
theorem toList_text_dot {s : Screen} (h : s.hasDot = false) :
    ∃ run, s.dot.text.toList = s.text.toList ++ run ∧ (∀ c ∈ run, isNumberChar c = true) ∧
      run.count '.' = 1 := by
  obtain ⟨entry, hdot, hentry⟩ := dot_of_not_hasDot h
  refine ⟨entry.toList, ?_, ?_⟩
  · rw [hdot, toList_text_cons]
    rfl
  · rcases hentry with ⟨hentry, -⟩ | hentry <;>
    · rw [hentry]
      exact ⟨by simp [isNumberChar], rfl⟩

/-! ## Screens whose flag is in step -/

theorem Sound.empty : Sound {} :=
  ⟨pointsAlone_of_count_le (Nat.zero_le 1), fun _ => List.not_mem_nil⟩

theorem Sound.ofValue (x : Float) : Sound (ofValue x) := by
  refine ⟨?_, ?_⟩
  · rw [text_ofValue]
    exact pointsAlone_of_count_le (Number.pointed_display x).count_le
  · intro hflag hmem
    have hnone : (Number.display x).toList.contains '.' = false := hflag
    rw [text_ofValue] at hmem
    have hcontains : (Number.display x).toList.contains '.' = true :=
      List.contains_iff_mem.mpr ((lastRun_sublist _).subset hmem)
    rw [hnone] at hcontains
    cases hcontains

theorem Sound.dot {s : Screen} (h : s.Sound) : s.dot.Sound := by
  cases hflag : s.hasDot with
  | true =>
      rw [Screen.dot, if_pos hflag]
      exact h
  | false =>
      obtain ⟨run, htext, hrun, hcount⟩ := toList_text_dot hflag
      obtain ⟨entry, hdot, -⟩ := dot_of_not_hasDot hflag
      -- the flag is down, so this is the first point of its number
      have hnone : (lastRun s.text.toList).count '.' = 0 :=
        List.count_eq_zero.mpr (h.inStep hflag)
      refine ⟨?_, ?_⟩
      · rw [htext]
        refine h.alone.append hrun ?_
        rw [List.count_append]
        omega
      · intro hfalse
        rw [hdot] at hfalse
        cases hfalse

/-- Nothing but a point can give a number a second one. -/
theorem Sound.concat {s t : Screen} {c : Char} (h : s.Sound) (hc : c ≠ '.')
    (htext : t.text.toList = s.text.toList ++ [c])
    (hflag : isNumberChar c = true → t.hasDot = s.hasDot) : t.Sound := by
  -- a digit goes on with the number and its points, any other character ends it
  have hcount : (lastRun (s.text.toList ++ [c])).count '.' ≤ 1 := by
    cases hnumber : isNumberChar c with
    | true =>
        rw [lastRun_concat_of_pos hnumber, List.count_append, List.count_singleton,
          if_neg (by simpa using hc)]
        exact h.alone _ List.prefix_rfl
    | false =>
        rw [lastRun_concat_of_neg hnumber]
        exact Nat.zero_le 1
  refine ⟨?_, ?_⟩
  · rw [htext]
    exact pointsAlone_concat.mpr ⟨h.alone, hcount⟩
  · intro hnot
    rw [htext]
    cases hnumber : isNumberChar c with
    | true =>
        rw [hflag hnumber] at hnot
        rw [lastRun_concat_of_pos hnumber, List.mem_append, List.mem_singleton]
        rintro (hmem | hpoint)
        · exact h.inStep hnot hmem
        · exact hc hpoint.symm
    | false =>
        rw [lastRun_concat_of_neg hnumber]
        exact List.not_mem_nil

/-- **Every key keeps the flag in step but taking back**, which is sound as long as it does so. -/
theorem Sound.press {s : Screen} {c : Char} (h : s.Sound)
    (hdelete : c = '<' → s.delete.InStep) : (s.press (.ofChar c)).value.2.Sound := by
  have hkey : Key.Labelled c (.ofChar c) := Key.labelled c
  generalize Key.ofChar c = key at hkey
  cases hkey with
  | operator hc =>
      have hnumber : isNumberChar c = false := by
        simp only [Key.operators, List.mem_cons, List.not_mem_nil, or_false] at hc
        rcases hc with rfl | rfl | rfl | rfl <;> rfl
      have hne : c ≠ '.' := by
        rintro rfl
        cases hnumber
      refine h.concat hne (toList_text_char s c false) fun hpos => ?_
      rw [hnumber] at hpos
      cases hpos
  | dot => exact h.dot
  | delete => exact ⟨h.alone.of_front (text_delete s), hdelete rfl⟩
  | cancel => exact Sound.empty
  | equals =>
      show s.equals.value.2.Sound
      rcases s.equals_eq_or with hsame | ⟨x, -, -, -, hvalue⟩
      · rw [hsame]
        exact h
      · rw [hvalue]
        exact Sound.ofValue x
  | input _ hdot _ =>
      exact h.concat hdot (toList_text_char s c s.hasDot) fun _ => rfl

theorem Sound.typed {keys : List Char}
    (h : ∀ front, front ++ ['<'] <+: keys → (typed (front ++ ['<'])).InStep) :
    (typed keys).Sound := by
  induction keys using List.reverseRecOn with
  | nil => exact Sound.empty
  | append_singleton keys c ih =>
      have hfront : (Screen.typed keys).Sound :=
        ih fun front hfront => h front (hfront.trans (List.prefix_append keys [c]))
      rw [typed_concat]
      refine hfront.press ?_
      rintro rfl
      have hlast := h keys List.prefix_rfl
      rwa [typed_concat] at hlast

/-- A number with one point has a value. -/
theorem Sound.guarded {s : Screen} (h : s.Sound) : s.Guarded := by
  refine ⟨fun n hn => (h.alone.count_of_number (mem_numbersOf.mp hn)).2, ?_⟩
  intro fault herror
  obtain ⟨-, hvalue⟩ := equals_eq_error_iff.mp herror
  obtain ⟨-, hfirst⟩ := Calculation.ofText_eq_error_value_iff.mp hvalue
  obtain ⟨n, hn, hnone, -⟩ := exists_of_firstMalformed hfirst
  obtain ⟨hliteral, hcount⟩ := h.alone.count_of_number (mem_numbersOf.mp hn)
  have hsome := (Number.isSome_valueOf?_iff hliteral).mpr hcount
  rw [hnone] at hsome
  cases hsome

/-! ## Points stand behind digits -/

theorem behindDigits_dot {s : Screen} (h : PointsBehindDigits s.text.toList) :
    PointsBehindDigits s.dot.text.toList := by
  cases hflag : s.hasDot with
  | true =>
      rw [dot, if_pos hflag]
      exact h
  | false =>
      obtain ⟨entry, hdot, hentry⟩ := dot_of_not_hasDot hflag
      rw [hdot, toList_text_cons]
      rcases hentry with ⟨hentry, hdigit⟩ | hentry
      · rw [hentry]
        exact pointsBehindDigits_concat.mpr ⟨h, fun _ => hdigit⟩
      · have hzero : PointsBehindDigits (s.text.toList ++ ['0']) :=
          pointsBehindDigits_concat.mpr ⟨h, fun hc => absurd hc (by decide)⟩
        have hpoint : PointsBehindDigits (s.text.toList ++ ['0'] ++ ['.']) := by
          refine pointsBehindDigits_concat.mpr ⟨hzero, fun _ => ⟨'0', ?_, rfl⟩⟩
          rw [List.getLast?_concat]
          rfl
        rw [List.append_assoc] at hpoint
        rw [hentry]
        exact hpoint

theorem behindDigits_press {s : Screen} (h : PointsBehindDigits s.text.toList) (c : Char) :
    PointsBehindDigits (s.press (.ofChar c)).value.2.text.toList := by
  have hkey : Key.Labelled c (.ofChar c) := Key.labelled c
  generalize Key.ofChar c = key at hkey
  cases hkey with
  | operator hc =>
      show PointsBehindDigits (Screen.mk (c.toString :: s.entries) false).text.toList
      rw [toList_text_char]
      refine pointsBehindDigits_concat.mpr ⟨h, ?_⟩
      rintro rfl
      exact absurd hc (by decide)
  | dot => exact behindDigits_dot h
  | delete => exact h.of_front (text_delete s)
  | cancel => exact Number.Pointed.behindDigits (.inl List.not_mem_nil)
  | equals =>
      show PointsBehindDigits s.equals.value.2.text.toList
      rcases s.equals_eq_or with hsame | ⟨x, -, -, -, hvalue⟩
      · rw [hsame]
        exact h
      · rw [hvalue, text_ofValue]
        exact (Number.pointed_display x).behindDigits
  | input _ hdot _ =>
      show PointsBehindDigits (Screen.mk (c.toString :: s.entries) s.hasDot).text.toList
      rw [toList_text_char]
      exact pointsBehindDigits_concat.mpr ⟨h, fun hc => absurd hc hdot⟩

theorem behindDigits_typed (keys : List Char) : PointsBehindDigits (typed keys).text.toList := by
  induction keys using List.reverseRecOn with
  | nil => exact Number.Pointed.behindDigits (.inl List.not_mem_nil)
  | append_singleton keys c ih =>
      rw [typed_concat]
      exact behindDigits_press ih c

/-- A point that the flag has forgotten can be followed by another in the same number. -/
theorem inStep_of_onePoint_dot {s : Screen} (hbehind : PointsBehindDigits s.text.toList)
    (h : s.dot.OnePoint) : s.InStep := by
  intro hflag hmem
  obtain ⟨run, htext, hrun, hcount⟩ := toList_text_dot hflag
  have hlast : lastRun s.dot.text.toList = lastRun s.text.toList ++ run := by
    rw [htext, lastRun_append hrun]
  have hne : lastRun s.dot.text.toList ≠ [] := by
    rw [hlast]
    exact List.append_ne_nil_of_left_ne_nil (List.ne_nil_of_mem hmem) run
  -- the run that the point went on with is one number, and has both points
  obtain ⟨place, hnumber⟩ := (behindDigits_dot hbehind).exists_number hne
  have htwo : (lastRun s.dot.text.toList).count '.' ≤ 1 := by
    have hle : (String.ofList (lastRun s.dot.text.toList)).toList.count '.' ≤ 1 :=
      h ⟨_, place⟩ (mem_numbersOf.mpr hnumber)
    rwa [String.toList_ofList] at hle
  have hone : 0 < (lastRun s.text.toList).count '.' := List.count_pos_iff.mpr hmem
  rw [hlast, List.count_append] at htwo
  omega

/-- **Points are kept out of numbers that have one** all along, whatever the keys and with one point
more at any time, exactly if each time an entry is taken back the flag still knows of a point in the
number that is then being typed. -/
theorem typed_guarded_iff (keys : List Char) :
    (∀ front, front <+: keys → (typed front).Guarded ∧ (typed (front ++ ['.'])).Guarded) ↔
      ∀ front, front ++ ['<'] <+: keys → (typed (front ++ ['<'])).InStep := by
  constructor
  · intro h front hfront
    have hone : (typed (front ++ ['<'] ++ ['.'])).OnePoint := (h _ hfront).2.onePoint
    rw [typed_concat] at hone
    exact inStep_of_onePoint_dot (behindDigits_typed _) hone
  · intro h front hfront
    have hsound : (typed front).Sound :=
      Sound.typed fun front' hfront' => h front' (hfront'.trans hfront)
    refine ⟨hsound.guarded, ?_⟩
    rw [typed_concat]
    exact hsound.dot.guarded

/-- Taking back an operator uncovers a number whose point is forgotten. -/
theorem two_points_behind_operator_taken_back :
    (typed "1.5+<.5".toList).text = "1.5.5" ∧ ¬ (typed "1.5+<.5".toList).OnePoint ∧
      ((typed "1.5+<.5".toList).press .equals).value.1 =
        .error (.value ⟨.invalidNumber "1.5.5", .between 0 5⟩) := by
  refine ⟨by decide, ?_, ?_⟩
  · rw [OnePoint]
    decide +kernel
  · decide +kernel

end Screen

end Calculator
