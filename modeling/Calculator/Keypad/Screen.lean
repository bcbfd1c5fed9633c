import Calculator.Calculation
import Calculator.Keypad.Key
import Calculator.Number.Display

/-!
# The screen of the keypad

The screen holds what has been typed, entry by entry, so that the latest entry can be
taken back. A number gets at most one decimal point: `hasDot` tells whether the number
being typed has one. The flag is reset by an operator, by clearing, and by taking back an
entry with a point; other symbols leave it alone.

A press that fails changes nothing, and only `equals` can fail.
-/

namespace Calculator

/-- What the keypad shows. -/
structure Screen where
  /-- What has been typed, latest entry first. -/
  entries : List String := []
  /-- Whether another decimal point is refused. -/
  hasDot : Bool := false
deriving DecidableEq, Repr

namespace Screen

/-- The text on the screen. -/
def text (s : Screen) : String := String.join s.entries.reverse

/-- Whether nothing has been typed. -/
def isEmpty (s : Screen) : Bool := s.entries.isEmpty

/-- Whether a text holds a decimal point. -/
def containsDot (entry : String) : Bool := entry.toList.contains '.'

/-- Whether a text ends with a digit. -/
def endsWithDigit (entry : String) : Bool := entry.toList.getLast?.any Char.isDigit

/-- Adds an entry. -/
def type (s : Screen) (entry : String) : Screen := { s with entries := entry :: s.entries }

/-- Takes back the latest entry, and with it the point that it may have brought. -/
def delete (s : Screen) : Screen :=
  match s.entries with
  | [] => s
  | entry :: entries => ⟨entries, s.hasDot && !containsDot entry⟩

/-- Types a decimal point unless the number has one. Where no digit stands before it, a
zero is supplied. -/
def dot (s : Screen) : Screen :=
  if s.hasDot then
    s
  else
    let entry := if s.entries.head?.any endsWithDigit then "." else "0."
    ⟨entry :: s.entries, true⟩

/-- A screen that shows a value. -/
def ofValue (x : Float) : Screen :=
  let shown := Number.display x
  ⟨[shown], containsDot shown⟩

/-- Replaces the screen by its value. A screen that has none stays as it is. -/
def equals (s : Screen) : Logged (Except Fault Unit × Screen) := do
  if s.isEmpty then
    return (.ok (), s)
  else
    let input := s.text
    match ← Calculation.record input with
    | .error fault =>
        Logged.record [.keptScreen input fault.message]
        return (.error fault, s)
    | .ok ⟨none, _⟩ => return (.ok (), s)
    | .ok ⟨some x, _⟩ =>
        Logged.record [.evaluatedScreen input (Number.display x)]
        return (.ok (), ofValue x)

/-- Presses a key. -/
def press (s : Screen) : Key → Logged (Except Fault Unit × Screen)
  | .cancel => return (.ok (), {})
  | .delete => return (.ok (), s.delete)
  | .equals => s.equals
  | .dot => return (.ok (), s.dot)
  | .operator c => return (.ok (), ⟨c.toString :: s.entries, false⟩)
  | .input c => return (.ok (), s.type c.toString)

/-- Presses keys in order, up to the first press that fails. -/
def pressAll (s : Screen) : List Key → Logged (Except Fault Unit × Screen)
  | [] => return (.ok (), s)
  | key :: keys => do
      match ← s.press key with
      | (.ok (), t) => t.pressAll keys
      | (.error fault, t) => return (.error fault, t)

end Screen

end Calculator
