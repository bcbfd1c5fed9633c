import Calculator.Forest
import Calculator.Token.Cursor

/-!
# Calculations

A calculation takes a text through all stages: its items, the forest of its tokens, the
forest's value. Characters that belong to no token do not stop it; they are recorded as
warnings before the tokens are looked at, and returned with the value.
-/

namespace Calculator

/-- The warning that the journal keeps of a character that was passed over. -/
def Notice.event (n : Notice) : Event := .noticed n.message n.span.lo

/-- What a text comes to. -/
structure Calculation where
  /-- The value; none if the text has no token. -/
  value : Option Float
  /-- The characters that were passed over. -/
  notices : List Notice

namespace Calculation

/-- Calculates a text and records every stage. -/
def record (text : String) : Logged (Except Fault Calculation) := do
  let items ← recordItems text
  let notices := noticesOf items
  Logged.record (notices.map Notice.event)
  match ← recordForest (tokensOf items) with
  | .error fault => return .error (.parse fault)
  | .ok forest =>
      match ← forest.recordValue with
      | .error fault => return .error (.value fault)
      | .ok value => return .ok ⟨value, notices⟩

/-- What a text comes to. -/
def ofText (text : String) : Except Fault Calculation := (record text).value

end Calculation

end Calculator
