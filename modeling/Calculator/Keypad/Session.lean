import Calculator.Keypad.Screen
import Calculator.Output
import Calculator.Text.Blank

/-!
# Keypad sessions

In a session the user enters lines of keys. Blanks in a line are ignored. After a line
with an `=` the screen is printed; a line that fails is reported against the screen as it
then stands. The prompt always shows the screen.
-/

namespace Calculator

/-- What the line editor hands over. -/
inductive Signal
  /-- A line was entered. -/
  | line (text : String)
  /-- The user interrupted. -/
  | interrupt
  /-- The input has ended. -/
  | endOfInput
  /-- Reading failed. -/
  | failure (message : String)
  /-- The user searches the history; the read goes on. -/
  | search (term : String)
  /-- The entry runs over several lines; the read goes on. -/
  | multiline
deriving DecidableEq, Repr

/-- What a session comes to. -/
structure Ending where
  success : Bool
  outputs : List Output
  screen : Screen
deriving DecidableEq, Repr

namespace Session

/-- The prompt in front of a line of keys. -/
def prompt (s : Screen) : Output := .prompted ("[" ++ s.text ++ "] ")

/-- The prompt shows the text of the screen between brackets. -/
theorem prompt_eq (s : Screen) : prompt s = .prompted ("[" ++ s.text ++ "] ") := rfl

/-- The keys of a line. -/
def keysOf (line : String) : List Key :=
  (line.toList.filter (!isBlank ·)).map Key.ofChar

/-- A line of keys is entered: what it shows, and the screen behind it. -/
def enter (quiet : Bool) (s : Screen) (line : String) : Logged (List Output × Screen) := do
  if line.toList.all isBlank then
    return ([], s)
  else
    match ← s.pressAll (keysOf line) with
    | (.ok (), t) =>
        return (if line.toList.contains '=' then [.printed (t.text ++ "\n")] else [], t)
    | (.error fault, t) =>
        return (if quiet then [] else [.reported ⟨"<keypad>", t.text⟩ fault.diagnostic], t)

/-- Shows something before all else. -/
def showFirst (outputs : List Output) (e : Ending) : Ending :=
  { e with outputs := outputs ++ e.outputs }

/-- Follows the signals to the end of the session. The prompt is already shown. When the
signals are used up, the input has ended. -/
def follow (quiet : Bool) (s : Screen) : List Signal → Logged Ending
  | [] => return ⟨true, [], s⟩
  | .interrupt :: _ => return ⟨true, [], s⟩
  | .endOfInput :: _ => return ⟨true, [], s⟩
  | .failure message :: _ => return ⟨false, [.complained s!"error: {message}\n"], s⟩
  | .search term :: rest =>
      showFirst [.searched ("[search: " ++ term ++ "] ")] <$> follow quiet s rest
  | .multiline :: rest => showFirst [.continued ".. "] <$> follow quiet s rest
  | .line text :: rest => do
      let (shown, t) ← enter quiet s text
      showFirst (shown ++ [prompt t]) <$> follow quiet t rest

/-- A session from its start on an empty screen, recording every stage. -/
def record (quiet : Bool) (signals : List Signal) : Logged Ending :=
  showFirst [prompt {}] <$> follow quiet {} signals

end Session

end Calculator
