import Calculator.Proofs.Keypad.Typing

/-!
# Presses that fail

A press fails only if it asks for the value of what is on the screen and there is none; then the
screen stays as it is (`Screen.value_press_of_error`). Keys are pressed one after the other, so keys
can be pressed in two goes (`Screen.pressAll_append`), and a run that fails has gone as far as the
press that fails, and no further (`Screen.pressAll_atomic`).
-/

namespace Calculator

theorem Logged.bind_of_value {α β : Type} {x : Logged α} {a : α} (h : x.value = a)
    (f : α → Logged β) : x >>= f = ⟨(f a).value, x.log ++ (f a).log⟩ := by
  rw [← h]
  rfl

namespace Screen

variable {s t : Screen} {fault : Fault}

/-! ## One press -/

theorem press_eq_error_iff {key : Key} :
    (s.press key).value.1 = .error fault ↔
      key = .equals ∧ s.isEmpty = false ∧ Calculation.ofText s.text = .error fault := by
  cases key with
  | equals =>
      rw [← equals_eq_error_iff]
      exact (and_iff_right rfl).symm
  | input _ | operator _ | dot | delete | cancel =>
      constructor
      · intro h
        cases h
      · rintro ⟨h, -⟩
        cases h

/-- **A press that fails changes nothing.** -/
theorem value_press_of_error {key : Key} (h : (s.press key).value.1 = .error fault) :
    (s.press key).value = (.error fault, s) := by
  obtain ⟨rfl, hempty, herror⟩ := press_eq_error_iff.mp h
  rw [press, value_equals, hempty, herror]
  rfl

/-! ## Keys in order -/

/-- Goes on with keys where others have been pressed, unless one of these failed. -/
def goOn (keys : List Key) : Except Fault Unit × Screen → Logged (Except Fault Unit × Screen)
  | (.ok (), t) => t.pressAll keys
  | (.error fault, t) => return (.error fault, t)

theorem pressAll_cons (s : Screen) (key : Key) (keys : List Key) :
    s.pressAll (key :: keys) = s.press key >>= goOn keys := rfl

/-- **Keys can be pressed in two goes.** -/
theorem pressAll_append (s : Screen) (keys more : List Key) :
    s.pressAll (keys ++ more) = s.pressAll keys >>= goOn more := by
  induction keys generalizing s with
  | nil => exact (pure_bind _ _).symm
  | cons key keys ih =>
      have hgoOn (r : Except Fault Unit × Screen) :
          goOn (keys ++ more) r = goOn keys r >>= goOn more := by
        match r with
        | (.ok (), t) => exact ih t
        | (.error fault, t) => exact (pure_bind _ _).symm
      rw [List.cons_append, pressAll_cons, pressAll_cons, bind_assoc, funext hgoOn]

/-- Where keys have been pressed, others go on. -/
theorem pressAll_append_of_ok {keys : List Key} (h : (s.pressAll keys).value = (.ok (), t))
    (more : List Key) :
    s.pressAll (keys ++ more) =
      ⟨(t.pressAll more).value, (s.pressAll keys).log ++ (t.pressAll more).log⟩ := by
  rw [pressAll_append, Logged.bind_of_value h]
  rfl

/-- Behind a press that fails no key is pressed. -/
theorem pressAll_cons_of_error {key : Key} (h : (s.press key).value.1 = .error fault)
    (keys : List Key) : s.pressAll (key :: keys) = ⟨(.error fault, s), (s.press key).log⟩ := by
  rw [pressAll_cons, Logged.bind_of_value (value_press_of_error h)]
  exact congrArg _ (List.append_nil _)

/-- **A run that fails has gone as far as the press that fails.** -/
theorem pressAll_eq_error_iff {keys : List Key} :
    (s.pressAll keys).value = (.error fault, t) ↔
      ∃ before key after, keys = before ++ key :: after ∧
        (s.pressAll before).value = (.ok (), t) ∧ (t.press key).value.1 = .error fault := by
  constructor
  · intro h
    induction keys generalizing s with
    | nil => cases h
    | cons key keys ih =>
        match hpress : (s.press key).value with
        | (.error fault', u) =>
            have hfirst : (s.press key).value.1 = .error fault' := by rw [hpress]
            rw [pressAll_cons_of_error hfirst] at h
            cases h
            exact ⟨[], key, keys, rfl, rfl, hfirst⟩
        | (.ok (), u) =>
            rw [pressAll_cons, Logged.bind_of_value hpress] at h
            obtain ⟨before, last, after, rfl, hbefore, hlast⟩ := ih h
            refine ⟨key :: before, last, after, rfl, ?_, hlast⟩
            rw [pressAll_cons, Logged.bind_of_value hpress]
            exact hbefore
  · rintro ⟨before, key, after, rfl, hbefore, hkey⟩
    rw [pressAll_append_of_ok hbefore, pressAll_cons_of_error hkey]

/-- **Presses are atomic and compose.** A press fails exactly if it asks for the value of something
that has none, and then it changes nothing. A run of keys fails exactly if, after the keys in front
have been pressed, the one with some index asks for a value and there is none: the screen is as
these keys left it, and the keys behind play no part. A run that does not fail can be followed by
another, and both are one run. -/
theorem pressAll_atomic (s : Screen) :
    (∀ key fault, (s.press key).value.1 = .error fault ↔
      key = .equals ∧ s.isEmpty = false ∧ Calculation.ofText s.text = .error fault) ∧
    (∀ key fault, (s.press key).value.1 = .error fault → (s.press key).value.2 = s) ∧
    (∀ keys fault t, (s.pressAll keys).value = (.error fault, t) ↔
      ∃ i, keys[i]? = some .equals ∧ (s.pressAll (keys.take i)).value = (.ok (), t) ∧
        (t.press .equals).value = (.error fault, t) ∧
        ∀ later, s.pressAll (keys.take (i + 1) ++ later) = s.pressAll keys) ∧
    ∀ keys more t, (s.pressAll keys).value = (.ok (), t) →
      (s.pressAll (keys ++ more)).value = (t.pressAll more).value ∧
        (s.pressAll (keys ++ more)).log = (s.pressAll keys).log ++ (t.pressAll more).log := by
  refine ⟨fun key fault => press_eq_error_iff, ?_, ?_, ?_⟩
  · intro key fault h
    rw [value_press_of_error h]
  · intro keys fault t
    rw [pressAll_eq_error_iff]
    constructor
    · rintro ⟨before, key, after, rfl, hbefore, hkey⟩
      obtain ⟨rfl, -⟩ := press_eq_error_iff.mp hkey
      have hrun (later : List Key) : s.pressAll (before ++ .equals :: later) =
          ⟨(.error fault, t), (s.pressAll before).log ++ (t.press .equals).log⟩ := by
        rw [pressAll_append_of_ok hbefore, pressAll_cons_of_error hkey]
      refine ⟨before.length, ?_, ?_, value_press_of_error hkey, fun later => ?_⟩
      · rw [List.getElem?_append_right (Nat.le_refl _), Nat.sub_self]
        rfl
      · rw [List.take_left]
        exact hbefore
      · have htake : (before ++ Key.equals :: after).take (before.length + 1) =
            before ++ [.equals] := by
          rw [List.take_length_add_append]
          rfl
        rw [htake, List.append_assoc, List.singleton_append, hrun, hrun]
    · rintro ⟨i, hkey, hbefore, hpress, -⟩
      obtain ⟨hi, hget⟩ := List.getElem?_eq_some_iff.mp hkey
      refine ⟨keys.take i, .equals, keys.drop (i + 1), ?_, hbefore, by rw [hpress]⟩
      rw [← hget, List.getElem_cons_drop, List.take_append_drop]
  · intro keys more t h
    rw [pressAll_append_of_ok h]
    exact ⟨rfl, rfl⟩

/-- The second `=` of `2=(=3` fails, and the `3` is not pressed. -/
theorem pressAll_atomic_open_group :
    let keys (typed : String) : List Key := typed.toList.map Key.ofChar
    let fault : Fault := .parse ⟨.unexpectedEnd, .emptyAt 2⟩
    let t : Screen := ⟨["(", "2"], false⟩
    (pressAll {} (keys "2=(=3")).value = (.error fault, t) ∧
      Calculation.ofText t.text = .error fault ∧ (t.press .equals).value.2 = t ∧
      (∃ i, (pressAll {} ((keys "2=(=3").take i)).value = (.ok (), t) ∧
        ∀ later, pressAll {} ((keys "2=(=3").take (i + 1) ++ later) =
          pressAll {} (keys "2=(=3")) ∧
      (pressAll {} (keys "2=" ++ keys "(")).value =
        (pressAll ⟨["2"], false⟩ (keys "(")).value := by
  intro keys fault t
  have hrun : (pressAll {} (keys "2=(=3")).value = (.error fault, t) := by decide +kernel
  have hfirst : (pressAll {} (keys "2=")).value = (.ok (), ⟨["2"], false⟩) := by decide +kernel
  obtain ⟨-, -, hstop, hgo⟩ := pressAll_atomic {}
  obtain ⟨hfails, hkept, -, -⟩ := pressAll_atomic t
  obtain ⟨i, -, hbefore, hpress, hlater⟩ := (hstop _ _ _).mp hrun
  have herror : (t.press .equals).value.1 = .error fault := congrArg Prod.fst hpress
  exact ⟨hrun, ((hfails _ _).mp herror).2.2, hkept _ _ herror, ⟨i, hbefore, hlater⟩,
    (hgo _ _ _ hfirst).1⟩

end Screen

end Calculator
