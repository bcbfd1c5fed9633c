import Calculator.Keypad.Session
import Calculator.Proofs.Fault
import Calculator.Proofs.Keypad.Pressing
import Calculator.Proofs.Output

/-!
# What a line of keys does to a session

A session follows its signals one by one, so it can be cut between two of them: what comes behind
depends on what was in front by the screen only (`Session.follow_append`). A line fails at an `=`.
The keys behind that are not pressed, and the screen is as it was when the value was asked for: what
is reported is what is wrong with the text that the next prompt shows.
-/

namespace Calculator

/-- Whether a session goes on behind a signal. -/
def Signal.goesOn : Signal → Bool
  | line _ | search _ | multiline => true
  | interrupt | endOfInput | failure _ => false

namespace Session

theorem showFirst_append (os ps : List Output) (e : Ending) :
    showFirst (os ++ ps) e = showFirst os (showFirst ps e) := by
  rw [showFirst, showFirst, showFirst, List.append_assoc]

/-- Goes on with signals where others have been followed. -/
def resume (quiet : Bool) (signals : List Signal) (e : Ending) : Logged Ending :=
  showFirst e.outputs <$> follow quiet e.screen signals

theorem resume_showFirst (quiet : Bool) (signals : List Signal) (os : List Output) (e : Ending) :
    resume quiet signals (showFirst os e) = showFirst os <$> resume quiet signals e := by
  simp only [resume, Functor.map_map, ← showFirst_append]
  rfl

/-- **A session can be cut between two signals.** -/
theorem follow_append (quiet : Bool) (s : Screen) {before : List Signal}
    (hbefore : ∀ signal ∈ before, signal.goesOn = true) (after : List Signal) :
    follow quiet s (before ++ after) = follow quiet s before >>= resume quiet after := by
  induction before generalizing s with
  | nil =>
      have hnothing : showFirst [] = id := rfl
      show follow quiet s after = showFirst [] <$> follow quiet s after
      rw [hnothing, id_map]
  | cons signal before ih =>
      obtain ⟨hsignal, hbefore⟩ := List.forall_mem_cons.mp hbefore
      have hshown (os : List Output) (t : Screen) :
          showFirst os <$> follow quiet t (before ++ after) =
            (showFirst os <$> follow quiet t before) >>= resume quiet after := by
        rw [ih t hbefore, map_bind, bind_map_left]
        simp only [resume_showFirst]
      cases signal with
      | line text =>
          show enter quiet s text >>= _ = (enter quiet s text >>= _) >>= _
          rw [bind_assoc]
          exact congrArg _ (funext fun entered => hshown _ _)
      | search term => exact hshown _ s
      | multiline => exact hshown _ s
      | interrupt => cases hsignal
      | endOfInput => cases hsignal
      | failure message => cases hsignal

theorem record_append (quiet : Bool) {before : List Signal}
    (hbefore : ∀ signal ∈ before, signal.goesOn = true) (after : List Signal) :
    record quiet (before ++ after) = record quiet before >>= resume quiet after := by
  rw [record, record, follow_append quiet {} hbefore, map_bind, bind_map_left]
  simp only [resume_showFirst]

/-- What a line shows comes behind all that was shown before, and in front of the next prompt. -/
theorem outputs_record_line (quiet : Bool) {before : List Signal}
    (hbefore : ∀ signal ∈ before, signal.goesOn = true) (line : String) (after : List Signal) :
    let e := (record quiet before).value
    let entered := (enter quiet e.screen line).value
    (record quiet (before ++ .line line :: after)).value.outputs =
      e.outputs ++ (entered.1 ++ [prompt entered.2]) ++
        (follow quiet entered.2 after).value.outputs := by
  intro e entered
  rw [record_append quiet hbefore, List.append_assoc]
  rfl

/-- A session goes on alike behind lines that do the same. -/
theorem record_line_congr {quiet : Bool} {before : List Signal}
    (hbefore : ∀ signal ∈ before, signal.goesOn = true) {line line' : String}
    (h : enter quiet (record quiet before).value.screen line =
      enter quiet (record quiet before).value.screen line') (after : List Signal) :
    record quiet (before ++ .line line :: after) =
      record quiet (before ++ .line line' :: after) := by
  rw [record_append quiet hbefore, record_append quiet hbefore, Logged.bind_of_value rfl,
    Logged.bind_of_value rfl]
  simp only [resume, follow, h]

/-! ## A line of keys -/

theorem value_enter (quiet : Bool) (s : Screen) {line : String}
    (hline : line.toList.all isBlank = false) :
    (enter quiet s line).value =
      match (s.pressAll (keysOf line)).value with
      | (.ok (), t) => (if line.toList.contains '=' then [.printed (t.text ++ "\n")] else [], t)
      | (.error fault, t) =>
          (if quiet then [] else [.reported ⟨"<keypad>", t.text⟩ fault.diagnostic], t) := by
  rw [enter, if_neg (by rw [hline]; exact Bool.false_ne_true), Logged.value_bind]
  rcases (s.pressAll (keysOf line)).value with ⟨_ | _, t⟩ <;> rfl

/-- The keys in front of an `=`, and those behind it. -/
theorem keysOf_append_equals (front back : List Char) :
    keysOf (.ofList (front ++ '=' :: back)) =
      keysOf (.ofList front) ++ .equals :: keysOf (.ofList back) := by
  simp only [keysOf, String.toList_ofList, List.filter_append, List.map_append]
  rfl

/-- Only the character `=` asks for the value. -/
theorem eq_of_ofChar_eq_equals {c : Char} (h : Key.ofChar c = .equals) : c = '=' := by
  have hkey := Key.labelled c
  rw [h] at hkey
  cases hkey
  rfl

/-- Where a line fails, there is an `=`. -/
theorem exists_failing_equals {s t : Screen} {line : String} {fault : Fault}
    (h : (s.pressAll (keysOf line)).value = (.error fault, t)) :
    ∃ front back, line.toList = front ++ '=' :: back ∧
      (s.pressAll (keysOf (.ofList front))).value = (.ok (), t) ∧
      (t.press .equals).value.1 = .error fault := by
  obtain ⟨before, key, after, hkeys, hbefore, hkey⟩ := Screen.pressAll_eq_error_iff.mp h
  obtain ⟨rfl, -⟩ := Screen.press_eq_error_iff.mp hkey
  -- the blanks that were left out belong to what is in front or to what is behind
  obtain ⟨cs, ds, hchars, hcs, hds⟩ := List.map_eq_append_iff.mp hkeys
  obtain ⟨c, es, rfl, hc, hes⟩ := List.map_eq_cons_iff.mp hds
  obtain ⟨front, rest, hline, hfront, hrest⟩ := List.filter_eq_append_iff.mp hchars
  obtain ⟨skipped, back, rfl, hskipped, -, hback⟩ := List.filter_eq_cons_iff.mp hrest
  cases eq_of_ofChar_eq_equals hc
  refine ⟨front ++ skipped, back, ?_, ?_, hkey⟩
  · rw [hline, List.append_assoc]
  · have hkeysFront : keysOf (.ofList (front ++ skipped)) = before := by
      rw [keysOf, String.toList_ofList, List.filter_append, hfront,
        List.filter_eq_nil_iff.mpr hskipped, List.append_nil, hcs]
    rw [hkeysFront]
    exact hbefore

/-- **A line fails at an `=`**, and the keys behind that are not pressed. -/
theorem enter_of_failing_equals {s t : Screen} {front : List Char} {fault : Fault}
    (hfront : (s.pressAll (keysOf (.ofList front))).value = (.ok (), t))
    (hfault : (t.press .equals).value.1 = .error fault) (quiet : Bool) (back : List Char) :
    enter quiet s (.ofList (front ++ '=' :: back)) =
      ⟨(if quiet then [] else [.reported ⟨"<keypad>", t.text⟩ fault.diagnostic], t),
        (s.pressAll (keysOf (.ofList front))).log ++ (t.press .equals).log⟩ := by
  have hblank : (String.ofList (front ++ '=' :: back)).toList.all isBlank = false := by
    rw [String.toList_ofList, List.all_append]
    exact Bool.and_eq_false_imp.mpr fun _ => rfl
  have hrun := Screen.pressAll_append_of_ok hfront (.equals :: keysOf (.ofList back))
  rw [Screen.pressAll_cons_of_error hfault] at hrun
  rw [enter, if_neg (by rw [hblank]; exact Bool.false_ne_true), keysOf_append_equals, hrun]
  exact congrArg _ (List.append_nil _)

/-- **A failing line is reported against the screen that failed**, and nothing is printed. What is
reported is what is wrong with the text that the next prompt shows between brackets, at a place in
it; what stands behind the `=` that failed plays no part in the session. A line that does not fail
prints the screen if there is an `=` in it. -/
theorem record_line (quiet : Bool) {before : List Signal}
    (hbefore : ∀ signal ∈ before, signal.goesOn = true) {line : String}
    (hline : line.toList.all isBlank = false) (after : List Signal) :
    let s := (record quiet before).value.screen
    let outcome := (s.pressAll (keysOf line)).value.1
    let t := (s.pressAll (keysOf line)).value.2
    ∃ shown,
      (record quiet (before ++ .line line :: after)).value.outputs =
        (record quiet before).value.outputs ++ (shown ++ [.prompted ("[" ++ t.text ++ "] ")]) ++
          (follow quiet t after).value.outputs ∧
      (outcome = .ok () →
        shown = if '=' ∈ line.toList then [.printed (t.text ++ "\n")] else []) ∧
      ∀ fault, outcome = .error fault →
        Output.written shown = "" ∧
        shown = (if quiet then [] else [.reported ⟨"<keypad>", t.text⟩ fault.diagnostic]) ∧
        Calculation.ofText t.text = .error fault ∧
        (∃ label part, fault.diagnostic.label = some label ∧
          label.span.slice? t.text.toList = some part) ∧
        ∃ front back, line.toList = front ++ '=' :: back ∧
          (s.pressAll (keysOf (.ofList front))).value = (.ok (), t) ∧
          (t.press .equals).value.1 = .error fault ∧
          ∀ back', record quiet (before ++ .line (.ofList (front ++ '=' :: back')) :: after) =
            record quiet (before ++ .line line :: after) := by
  intro s outcome t
  have hpressed : (s.pressAll (keysOf line)).value = (outcome, t) := rfl
  have hentered := value_enter quiet s hline
  rw [hpressed] at hentered
  have hscreen : (enter quiet s line).value.2 = t := by
    rw [hentered]
    cases outcome <;> rfl
  refine ⟨(enter quiet s line).value.1, ?_, ?_, ?_⟩
  · rw [← hscreen, ← prompt_eq]
    exact outputs_record_line quiet hbefore line after
  · intro houtcome
    rw [hentered, houtcome]
    simp only [List.contains_iff_mem]
  · intro fault houtcome
    rw [houtcome] at hpressed hentered
    have hshown : (enter quiet s line).value.1 =
        if quiet then [] else [.reported ⟨"<keypad>", t.text⟩ fault.diagnostic] := by rw [hentered]
    obtain ⟨front, back, hfront, hpress, hequals⟩ := exists_failing_equals hpressed
    have hfault : Calculation.ofText t.text = .error fault :=
      (Screen.press_eq_error_iff.mp hequals).2.2
    refine ⟨?_, hshown, hfault, ⟨_, _, rfl, Calculation.slice?_of_error hfault⟩, front, back,
      hfront, hpress, hequals, fun back' => ?_⟩
    · rw [hshown]
      split <;> rfl
    · have hsame : line = .ofList (front ++ '=' :: back) := by
        rw [← hfront, String.ofList_toList]
      refine record_line_congr hbefore ?_ after
      rw [hsame, enter_of_failing_equals hpress hequals, enter_of_failing_equals hpress hequals]

/-- Behind `2=` and a search, the `=` of `( =3` fails; the `3` is not pressed. -/
theorem record_line_open_group :
    let before : List Signal := [.line "2=", .search "old"]
    let after : List Signal := [.line "1)="]
    let t : Screen := ⟨["(", "2"], false⟩
    let fault : Fault := .parse ⟨.unexpectedEnd, .emptyAt 2⟩
    (∀ signal ∈ before, signal.goesOn = true) ∧ "( =3".toList.all isBlank = false ∧
      (record false before).value.screen = ⟨["2"], false⟩ ∧
      (Screen.pressAll ⟨["2"], false⟩ (keysOf "( =3")).value = (.error fault, t) ∧
      (record false (before ++ .line "( =3" :: after)).value.outputs =
        (record false before).value.outputs ++
          ([.reported ⟨"<keypad>", "2("⟩ fault.diagnostic] ++ [.prompted "[2(] "]) ++
            (follow false t after).value.outputs := by
  intro before after t fault
  have hbefore : ∀ signal ∈ before, signal.goesOn = true := by decide
  have hline : "( =3".toList.all isBlank = false := by decide +kernel
  have hscreen : (record false before).value.screen = ⟨["2"], false⟩ := by decide +kernel
  have hpress : (Screen.pressAll ⟨["2"], false⟩ (keysOf "( =3")).value = (.error fault, t) := by
    decide +kernel
  have htext : t.text = "2(" := by decide +kernel
  obtain ⟨shown, houtputs, -, hfails⟩ := record_line false hbefore hline after
  rw [hscreen, hpress] at houtputs hfails
  obtain ⟨-, hshown, -⟩ := hfails fault rfl
  rw [hshown, htext] at houtputs
  exact ⟨hbefore, hline, hscreen, hpress, houtputs⟩

end Session

end Calculator
