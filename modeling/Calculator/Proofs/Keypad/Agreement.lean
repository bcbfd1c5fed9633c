import Calculator.Proofs.Keypad.Echo
import Calculator.Proofs.Keypad.Session
import Calculator.Proofs.Text.Lines
import Calculator.Proofs.Worksheet.Results

/-!
# The keypad and the worksheet agree

What is typed on an empty keypad and followed by `=` shows what the same text shows as the only line
of a worksheet, as long as the keypad shows what is typed: the same value, or the same fault.
-/

namespace Calculator

theorem Arithmetic.isLineEnd_eq_false {cs : List Char} (h : Arithmetic cs) :
    ∀ c ∈ cs, isLineEnd c = false := by
  intro c hc
  cases hend : isLineEnd c with
  | false => rfl
  | true =>
      have hblank := h.isBlank_eq_false c hc
      rw [isLineEnd, Bool.or_eq_true, beq_iff_eq, beq_iff_eq] at hend
      rcases hend with rfl | rfl <;> cases hblank

/-! ## On the keypad -/

namespace Screen

theorem press_of_ne_equals {key : Key} (h : key ≠ .equals) (s : Screen) :
    (s.press key).value.1 = .ok () := by
  cases key with
  | equals => exact absurd rfl h
  | input _ | operator _ | dot | delete | cancel => rfl

/-- Where no value is asked for, all keys are pressed. -/
theorem value_pressAll_of_ne_equals {keys : List Key} (h : ∀ key ∈ keys, key ≠ .equals)
    (s : Screen) :
    (s.pressAll keys).value = (.ok (), keys.foldl (fun t key => (t.press key).value.2) s) := by
  induction keys generalizing s with
  | nil => rfl
  | cons key keys ih =>
      obtain ⟨hkey, hkeys⟩ := List.forall_mem_cons.mp h
      have hpress : (s.press key).value = (.ok (), (s.press key).value.2) :=
        Prod.ext (press_of_ne_equals hkey s) rfl
      rw [pressAll_cons, Logged.bind_of_value hpress]
      exact ih hkeys _

theorem value_pressAll_typed {cs : List Char} (h : ∀ c ∈ cs, c ∉ Key.commands) :
    (pressAll {} (cs.map Key.ofChar)).value = (.ok (), typed cs) := by
  have hkeys : ∀ key ∈ cs.map Key.ofChar, key ≠ .equals := by
    intro key hkey hequals
    obtain ⟨c, hc, rfl⟩ := List.mem_map.mp hkey
    cases Session.eq_of_ofChar_eq_equals hequals
    exact h '=' hc (by decide)
  rw [value_pressAll_of_ne_equals hkeys, typed, List.foldl_map]

theorem value_pressAll_singleton (s : Screen) (key : Key) :
    (s.pressAll [key]).value = (s.press key).value := by
  rw [pressAll_cons, Logged.value_bind]
  rcases (s.press key).value with ⟨_ | _, t⟩ <;> rfl

theorem isEmpty_eq_false {s : Screen} (h : s.text ≠ "") : s.isEmpty = false := by
  obtain ⟨entries, flag⟩ := s
  cases entries with
  | nil => exact absurd rfl h
  | cons => rfl

end Screen

/-- The keys of a text without blanks, and the `=` behind it. -/
theorem Session.keysOf_append_equals_of_not_blank {text : String}
    (h : ∀ c ∈ text.toList, isBlank c = false) :
    keysOf (text ++ "=") = text.toList.map Key.ofChar ++ [.equals] := by
  have htext : text ++ "=" = .ofList (text.toList ++ '=' :: []) := by
    rw [← String.toList_inj]
    simp
  have hall : text.toList.filter (!isBlank ·) = text.toList :=
    List.filter_eq_self.mpr fun c hc => by rw [h c hc]; rfl
  rw [htext, keysOf_append_equals, keysOf, String.toList_ofList, hall]
  rfl

/-! ## On a worksheet -/

theorem withoutLineEnd_eq_self {cs : List Char} (h : ∀ c ∈ cs, isLineEnd c = false) :
    withoutLineEnd cs = cs := by
  refine List.rdropWhile_eq_self_iff.mpr fun hne hlast => ?_
  rw [h _ (List.getLast_mem hne)] at hlast
  cases hlast

theorem Line.allOf_of_line {cs : List Char} (hline : ∀ c ∈ cs, isLineEnd c = false)
    (hne : cs ≠ []) :
    Line.allOf cs = [⟨1, 0, cs⟩] := by
  have hnewline : '\n' ∉ cs := by
    intro hmem
    cases hline '\n' hmem
  rw [allOf, pieces_of_not_mem hnewline hne, ofPieces, withoutLineEnd_eq_self hline]
  rfl

theorem Diagnostic.shift_zero (d : Diagnostic) : d.shift 0 = d := by
  obtain ⟨severity, message, label⟩ := d
  cases label <;> rfl

namespace Worksheet

/-- What a worksheet shows if it is one line in which nothing is passed over. -/
theorem outputs_record_of_line {m : Mode} (htrees : m.showTrees = false) (name : String)
    {text : String} (hline : ∀ c ∈ text.toList, isLineEnd c = false)
    (hblank : text.toList.all isBlank = false) (hnotices : noticesOf (itemsOf text) = []) :
    (record m ⟨name, text⟩).value.outputs =
      match Calculation.ofText text with
      | .ok ⟨some x, _⟩ => [.printed (Number.display x ++ "\n")]
      | .ok ⟨none, _⟩ => []
      | .error fault =>
          if m.quiet then [] else
            (if 0 < m.maxErrors then [.reported ⟨name, text⟩ fault.diagnostic] else []) ++
              [.reported ⟨name, text⟩ (closing name 1 (min 1 m.maxErrors))] := by
  let l : Line := ⟨1, 0, text.toList⟩
  have hne : text.toList ≠ [] := by
    intro hnil
    rw [hnil] at hblank
    cases hblank
  have hlines : Line.allOf text.toList = [l] := Line.allOf_of_line hline hne
  have hvoid : ¬ l.isVoid = true := Bool.eq_false_iff.mp hblank
  have hcalculated : l.calculated = Calculation.ofText text := by
    rw [Line.calculated, String.ofList_toList]
  have hresult := l.value_record
  rw [String.ofList_toList, hnotices, hcalculated] at hresult
  have hpreface : preface m ⟨name, text⟩ l l.record.value = [] := by
    rw [preface, hresult, htrees]
    cases (forestOf (tokensOf (itemsOf text))).toOption <;> rfl
  have hhandled (detailed : Bool) : handled m ⟨name, text⟩ detailed l =
      match Calculation.ofText text with
      | .ok ⟨some x, _⟩ => [.printed (Number.display x ++ "\n")]
      | .ok ⟨none, _⟩ => []
      | .error fault => if detailed then m.report ⟨name, text⟩ fault.diagnostic else [] := by
    rw [handled, if_neg hvoid, lineOutputs, hpreface, hresult, List.nil_append]
    cases Calculation.ofText text with
    | error fault => simp only [Except.map, l, Diagnostic.shift_zero]
    | ok calculation =>
        obtain ⟨value, notices⟩ := calculation
        cases value <;> rfl
  have hfailures : failures [l] = if (Calculation.ofText text).isOk then 0 else 1 := by
    rw [failures_cons, Line.fault?, if_neg hvoid, hcalculated]
    cases Calculation.ofText text <;> rfl
  rw [outputs_record]
  simp only [hlines, conclusion, List.mapIdx_cons, List.mapIdx_nil, List.flatten_singleton,
    List.take_zero, failures_nil, hhandled, hfailures]
  cases Calculation.ofText text with
  | error fault =>
      cases hquiet : m.quiet <;> by_cases hleft : 0 < m.maxErrors <;>
        simp [hquiet, hleft, Mode.report, Except.isOk, Except.toBool]
  | ok calculation =>
      obtain ⟨value, notices⟩ := calculation
      cases value <;> rfl

end Worksheet

/-- What the keypad shows of a text that is typed as it stands and then asked for its value. -/
theorem Session.value_enter_of_typed {text : String} (hne : text ≠ "")
    (hchars : Arithmetic text.toList) (hbehind : PointsBehindDigits text.toList)
    (hparted : PointsParted text.toList) (quiet : Bool) :
    ∃ t, (enter quiet {} (text ++ "=")).value =
      (match Calculation.ofText text with
        | .ok ⟨some x, _⟩ => [.printed (Number.display x ++ "\n")]
        | .ok ⟨none, _⟩ => [.printed (text ++ "\n")]
        | .error fault => if quiet then [] else [.reported ⟨"<keypad>", text⟩ fault.diagnostic],
      t) := by
  have htyped : (Screen.typed text.toList).text = text :=
    String.toList_inj.mp ((Screen.text_typed hchars.not_mem_commands hbehind).2.mpr hparted)
  have hempty : (Screen.typed text.toList).isEmpty = false :=
    Screen.isEmpty_eq_false (by rw [htyped]; exact hne)
  have hequals : '=' ∈ (text ++ "=").toList := by simp
  have hline : (text ++ "=").toList.all isBlank = false :=
    List.all_eq_false.mpr ⟨'=', hequals, by decide⟩
  have hpress : (Screen.pressAll {} (keysOf (text ++ "="))).value =
      (Screen.typed text.toList).equals.value := by
    rw [keysOf_append_equals_of_not_blank hchars.isBlank_eq_false,
      Screen.pressAll_append_of_ok (Screen.value_pressAll_typed hchars.not_mem_commands)]
    exact Screen.value_pressAll_singleton _ _
  rw [value_enter quiet {} hline, hpress, Screen.value_equals, hempty, htyped,
    if_neg Bool.false_ne_true, List.contains_iff_mem.mpr hequals]
  cases Calculation.ofText text with
  | error fault => exact ⟨Screen.typed text.toList, by simp only [htyped]⟩
  | ok calculation =>
      obtain ⟨value, notices⟩ := calculation
      cases value with
      | none => exact ⟨Screen.typed text.toList, by simp only [htyped, if_true]⟩
      | some x => exact ⟨Screen.ofValue x, by simp only [Screen.text_ofValue, if_true]⟩

/-- **The keypad and the worksheet agree.** A text of arithmetic that is typed as it stands, and
then asked for its value, prints what it prints as a worksheet; or both print nothing and report the
same fault at the same place. -/
theorem keypad_agrees_with_worksheet {text : String} (hne : text ≠ "")
    (hchars : Arithmetic text.toList) (hbehind : PointsBehindDigits text.toList)
    (hparted : PointsParted text.toList) {m : Mode} (htrees : m.showTrees = false) (name : String)
    (later : List Signal) :
    let sheet := (Worksheet.record m ⟨name, text⟩).value.outputs
    ∃ shown t,
      (Session.record m.quiet (.line (text ++ "=") :: later)).value.outputs =
        [Session.prompt {}] ++ (shown ++ [Session.prompt t]) ++
          (Session.follow m.quiet t later).value.outputs ∧
      ((∃ value, shown = [.printed (value ++ "\n")] ∧ sheet = [.printed (value ++ "\n")]) ∨
        Output.written shown = "" ∧ Output.written sheet = "" ∧
          ∃ d label, d.severity = .error ∧ d.label = some label ∧
            shown = (if m.quiet then [] else [.reported ⟨"<keypad>", text⟩ d]) ∧
            sheet = (if m.quiet then [] else
              (if 0 < m.maxErrors then [.reported ⟨name, text⟩ d] else []) ++
                [.reported ⟨name, text⟩ (Worksheet.closing name 1 (min 1 m.maxErrors))])) := by
  intro sheet
  have hline : ∀ c ∈ text.toList, isLineEnd c = false := hchars.isLineEnd_eq_false
  have hblank : text.toList.all isBlank = false := by
    have hnil : text.toList ≠ [] := fun hnil => hne (String.toList_inj.mp hnil)
    obtain ⟨c, cs, hcs⟩ := List.exists_cons_of_ne_nil hnil
    rw [hcs] at hchars ⊢
    rw [List.all_cons, hchars.isBlank_eq_false c (List.mem_cons_self ..), Bool.false_and]
  have hsheet : sheet = _ := Worksheet.outputs_record_of_line htrees name hline hblank
    (noticesOf_itemsOf_eq_nil hchars hbehind)
  obtain ⟨t, hentered⟩ := Session.value_enter_of_typed hne hchars hbehind hparted m.quiet
  have hsession : (Session.record m.quiet (.line (text ++ "=") :: later)).value.outputs = _ :=
    @Session.outputs_record_line m.quiet [] (List.forall_mem_nil _) (text ++ "=") later
  have hstart : (Session.record m.quiet []).value = ⟨true, [Session.prompt {}], {}⟩ := rfl
  simp only [hstart, hentered] at hsession
  refine ⟨_, t, hsession, ?_⟩
  rcases hchars.value_or_fault hbehind hne with ⟨x, hvalue⟩ | ⟨fault, hfault⟩
  · rw [hvalue] at hsheet ⊢
    exact .inl ⟨Number.display x, rfl, hsheet⟩
  · rw [hfault] at hsheet ⊢
    refine .inr ⟨?_, ?_, fault.diagnostic, _, rfl, rfl, rfl, hsheet⟩
    · simp only
      split <;> rfl
    · rw [hsheet]
      simp only
      split
      · rfl
      · split <;> rfl

/-- Both report the parenthesis that is never closed. -/
theorem keypad_agrees_with_worksheet_open_group :
    let text := "1.5+(2.5"
    let d := (Fault.parse ⟨.unclosedGroup, .between 4 5⟩).diagnostic
    text ≠ "" ∧ Arithmetic text.toList ∧ PointsBehindDigits text.toList ∧
      PointsParted text.toList ∧ ({} : Mode).showTrees = false ∧
      (Worksheet.record {} ⟨"sum", text⟩).value.outputs =
        [.reported ⟨"sum", text⟩ d, .reported ⟨"sum", text⟩ (Worksheet.closing "sum" 1 1)] ∧
      ∃ t, (Session.record false [.line (text ++ "=")]).value.outputs =
        [Session.prompt {}, .reported ⟨"<keypad>", text⟩ d, Session.prompt t] := by
  intro text d
  have hne : text ≠ "" := by decide
  have hchars : Arithmetic text.toList := by decide +kernel
  have hwell : WellFormed text.toList := by decide +kernel
  have hbehind : PointsBehindDigits text.toList := hwell.behindDigits
  have hparted : PointsParted text.toList :=
    (Screen.text_typed hwell.not_mem_commands hbehind).2.mp (by decide +kernel)
  have hsheet : (Worksheet.record {} ⟨"sum", text⟩).value.outputs =
      [.reported ⟨"sum", text⟩ d, .reported ⟨"sum", text⟩ (Worksheet.closing "sum" 1 1)] := by
    decide +kernel
  refine ⟨hne, hchars, hbehind, hparted, rfl, hsheet, ?_⟩
  obtain ⟨shown, t, houtputs, hagree⟩ :=
    @keypad_agrees_with_worksheet text hne hchars hbehind hparted {} rfl "sum" []
  rw [hsheet] at hagree
  rcases hagree with ⟨value, -, hprinted⟩ | ⟨-, -, d', label, -, -, hshown, hreported⟩
  · cases hprinted
  · cases hreported
    exact ⟨t, by rw [hshown] at houtputs; exact houtputs⟩

end Calculator
