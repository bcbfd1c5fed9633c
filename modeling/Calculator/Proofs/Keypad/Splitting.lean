import Calculator.Proofs.Keypad.Session

/-!
# How keys are split into lines

A session presses the keys of one line behind those of the other: where no press fails, its lines
are as one (`Session.value_follow_of_pressAll`). And whether a press fails is seen on all keys at
once (`Session.unfailing_iff`). So sessions in which the same characters are entered, blanks apart,
end alike, however they are split into lines.
-/

namespace Calculator

namespace Screen

variable {s t : Screen}

/-- Keys that are pressed without a failure can be pressed in two goes. -/
theorem exists_of_pressAll_append {keys more : List Key}
    (h : (s.pressAll (keys ++ more)).value = (.ok (), t)) :
    ∃ u, (s.pressAll keys).value = (.ok (), u) ∧ (u.pressAll more).value = (.ok (), t) := by
  rw [pressAll_append, Logged.value_bind] at h
  match hkeys : (s.pressAll keys).value with
  | (.ok (), u) =>
      rw [hkeys] at h
      exact ⟨u, rfl, h⟩
  | (.error fault, u) =>
      rw [hkeys] at h
      cases h

end Screen

namespace Session

/-- The characters that are entered in a session up to its end, without the blanks. -/
def entered : List Signal → List Char
  | .line text :: rest => text.toList.filter (!isBlank ·) ++ entered rest
  | .search _ :: rest | .multiline :: rest => entered rest
  | _ => []

/-- The keys that are entered in a session up to its end. -/
def keysIn (signals : List Signal) : List Key := (entered signals).map Key.ofChar

/-- Whether all keys of every line are pressed that is entered in a session: none of them fails. -/
def Unfailing (quiet : Bool) (s : Screen) (signals : List Signal) : Prop :=
  ∀ before line after, signals = before ++ .line line :: after →
    (∀ signal ∈ before, signal.goesOn = true) →
      ((follow quiet s before).value.screen.pressAll (keysOf line)).value.1 = .ok ()

theorem keysIn_line (text : String) (rest : List Signal) :
    keysIn (.line text :: rest) = keysOf text ++ keysIn rest := List.map_append

/-! ## One line -/

theorem keysOf_of_blank {line : String} (h : line.toList.all isBlank = true) :
    keysOf line = [] := by
  have hnone : line.toList.filter (!isBlank ·) = [] := by
    rw [List.filter_eq_nil_iff]
    intro c hc
    rw [List.all_eq_true.mp h c hc]
    exact Bool.false_ne_true
  rw [keysOf, hnone, List.map_nil]

/-- A line leaves the screen that its keys leave, and records what they record. -/
theorem enter_of_pressAll {s t : Screen} {line : String} {outcome : Except Fault Unit}
    (h : (s.pressAll (keysOf line)).value = (outcome, t)) (quiet : Bool) :
    (enter quiet s line).value.2 = t ∧
      (enter quiet s line).log = (s.pressAll (keysOf line)).log := by
  cases hblank : line.toList.all isBlank with
  | true =>
      rw [keysOf_of_blank hblank] at h ⊢
      cases h
      rw [enter, if_pos hblank]
      exact ⟨rfl, rfl⟩
  | false =>
      rw [enter, if_neg (by rw [hblank]; exact Bool.false_ne_true), Logged.bind_of_value h]
      cases outcome <;> exact ⟨rfl, List.append_nil _⟩

/-! ## All lines -/

/-- **Where no press fails, lines are as one.** -/
theorem value_follow_of_pressAll {s t : Screen} {signals : List Signal}
    (h : (s.pressAll (keysIn signals)).value = (.ok (), t)) (quiet : Bool) :
    (follow quiet s signals).value.screen = t ∧
      (follow quiet s signals).log = (s.pressAll (keysIn signals)).log := by
  induction signals generalizing s with
  | nil =>
      cases h
      exact ⟨rfl, rfl⟩
  | cons signal rest ih =>
      cases signal with
      | line text =>
          rw [keysIn_line] at h ⊢
          obtain ⟨u, hline, hrest⟩ := Screen.exists_of_pressAll_append h
          obtain ⟨hscreen, hlog⟩ := enter_of_pressAll hline quiet
          obtain ⟨hend, hlogRest⟩ := ih hrest
          rw [Screen.pressAll_append_of_ok hline]
          constructor
          · show (follow quiet (enter quiet s text).value.2 rest).value.screen = t
            rw [hscreen, hend]
          · show (enter quiet s text).log ++ (showFirst _ <$> follow quiet _ rest).log = _
            rw [Logged.log_map, hscreen, hlog, hlogRest]
      | search _ | multiline =>
          show _ ∧ (showFirst _ <$> follow quiet s rest).log = _
          rw [Logged.log_map]
          exact ih h
      | interrupt | endOfInput | failure _ =>
          cases h
          exact ⟨rfl, rfl⟩

/-- A session that goes on behind a signal fails where the rest of it does. -/
theorem unfailing_cons {quiet : Bool} {s t : Screen} {signal : Signal} {rest : List Signal}
    (hgoesOn : signal.goesOn = true)
    (hline : ∀ text, signal = .line text → (s.pressAll (keysOf text)).value.1 = .ok ())
    (hscreen : ∀ before, (follow quiet s (signal :: before)).value.screen =
      (follow quiet t before).value.screen) :
    Unfailing quiet s (signal :: rest) ↔ Unfailing quiet t rest := by
  constructor
  · intro h before line after hrest hbefore
    rw [← hscreen]
    exact h (signal :: before) line after (by rw [hrest]; rfl)
      (List.forall_mem_cons.mpr ⟨hgoesOn, hbefore⟩)
  · intro h before line after hsignals hbefore
    cases before with
    | nil =>
        cases hsignals
        exact hline line rfl
    | cons first before =>
        cases hsignals
        rw [hscreen]
        exact h before line after rfl (List.forall_mem_cons.mp hbefore).2

/-- Behind the end of a session nothing fails. -/
theorem unfailing_of_ended {quiet : Bool} {s : Screen} {signal : Signal} {rest : List Signal}
    (h : signal.goesOn = false) : Unfailing quiet s (signal :: rest) := by
  intro before line after hsignals hbefore
  cases before with
  | nil =>
      cases hsignals
      cases h
  | cons first before =>
      cases hsignals
      rw [(List.forall_mem_cons.mp hbefore).1] at h
      cases h

/-- **Whether a press fails is seen on all keys at once.** -/
theorem unfailing_iff {quiet : Bool} {s : Screen} {signals : List Signal} :
    Unfailing quiet s signals ↔ ∃ t, (s.pressAll (keysIn signals)).value = (.ok (), t) := by
  induction signals generalizing s with
  | nil =>
      refine iff_of_true ?_ ⟨s, rfl⟩
      intro before line after hnil
      exact absurd hnil.symm (List.append_ne_nil_of_right_ne_nil _ (List.cons_ne_nil _ _))
  | cons signal rest ih =>
      cases signal with
      | line text =>
          have hcons {t : Screen} (h : (s.pressAll (keysOf text)).value = (.ok (), t)) :
              Unfailing quiet s (.line text :: rest) ↔ Unfailing quiet t rest := by
            refine unfailing_cons rfl ?_ fun before => ?_
            · intro text' htext
              cases htext
              rw [h]
            · rw [← (enter_of_pressAll h quiet).1]
              rfl
          rw [keysIn_line]
          constructor
          · intro h
            have hfirst : (s.pressAll (keysOf text)).value = (.ok (), _) :=
              Prod.ext (h [] text rest rfl (List.forall_mem_nil _)) rfl
            obtain ⟨u, hu⟩ := ih.mp ((hcons hfirst).mp h)
            exact ⟨u, by rw [Screen.pressAll_append_of_ok hfirst, hu]⟩
          · rintro ⟨u, hu⟩
            obtain ⟨t, hfirst, hrest⟩ := Screen.exists_of_pressAll_append hu
            exact (hcons hfirst).mpr (ih.mpr ⟨u, hrest⟩)
      | search _ | multiline =>
          rw [unfailing_cons rfl (fun _ => Signal.noConfusion) fun _ => rfl, ih]
          rfl
      | interrupt | endOfInput | failure _ =>
          exact iff_of_true (unfailing_of_ended rfl) ⟨s, rfl⟩

/-- **How keys are split into lines plays no part in a session.** Where the same characters are
entered, blanks apart, no press fails in one session if none fails in the other; then both end with
the same screen and with the same journal, and the screen is the one on which all the keys have been
pressed in order. -/
theorem record_of_entered {signals signals' : List Signal}
    (h : entered signals = entered signals') (quiet quiet' : Bool) :
    (Unfailing quiet {} signals ↔ Unfailing quiet' {} signals') ∧
    (Unfailing quiet {} signals →
      (record quiet signals).value.screen = (record quiet' signals').value.screen ∧
      (record quiet signals).log = (record quiet' signals').log ∧
      (Screen.pressAll {} ((entered signals).map Key.ofChar)).value =
        (.ok (), (record quiet signals).value.screen)) := by
  have hkeys : keysIn signals = keysIn signals' := congrArg (List.map Key.ofChar) h
  constructor
  · rw [unfailing_iff, unfailing_iff, hkeys]
  · intro hunfailing
    obtain ⟨t, ht⟩ := unfailing_iff.mp hunfailing
    obtain ⟨hscreen, hlog⟩ := value_follow_of_pressAll ht quiet
    rw [hkeys] at ht
    obtain ⟨hscreen', hlog'⟩ := value_follow_of_pressAll ht quiet'
    rw [record, record, Logged.log_map, Logged.log_map, hlog, hlog', hkeys]
    refine ⟨hscreen.trans hscreen'.symm, rfl, ?_⟩
    show (Screen.pressAll {} (keysIn signals)).value =
      (.ok (), (follow quiet {} signals).value.screen)
    rw [hscreen, hkeys, ht]

/-- The keys of two lines in four; one of these is blank, and what stands behind the interrupt is
not entered. -/
theorem record_of_entered_blank_line :
    let signals : List Signal := [.line "2+3=", .search "old", .line "*4"]
    let signals' : List Signal :=
      [.line "2 +", .line "\u3000", .multiline, .line "3=\t*", .line "4", .interrupt, .line "("]
    entered signals = entered signals' ∧ Unfailing false {} signals ∧ Unfailing true {} signals' ∧
      (record true signals').value.screen = ⟨["4", "*", "5"], false⟩ ∧
      (record false signals).value.screen = (record true signals').value.screen ∧
      (Screen.pressAll {} ("2+3=*4".toList.map Key.ofChar)).value =
        (.ok (), ⟨["4", "*", "5"], false⟩) := by
  intro signals signals'
  have hsame : entered signals = entered signals' := by decide +kernel
  have hunfailing : Unfailing false {} signals :=
    unfailing_iff.mpr ⟨⟨["4", "*", "5"], false⟩, by decide +kernel⟩
  have hscreen' : (record true signals').value.screen = ⟨["4", "*", "5"], false⟩ := by
    decide +kernel
  obtain ⟨hiff, hends⟩ := record_of_entered hsame false true
  obtain ⟨hscreen, -, hpressed⟩ := hends hunfailing
  rw [hscreen, hscreen'] at hpressed
  exact ⟨hsame, hunfailing, hiff.mp hunfailing, hscreen', hscreen, hpressed⟩

end Session

end Calculator
