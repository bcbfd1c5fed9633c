import Calculator.Calculation
import Calculator.Number.Display
import Calculator.Output

/-!
# Worksheets

A worksheet is a text whose lines are calculated one by one. A line that fails is
reported and does not touch the others; blank lines are passed over. Diagnostics point
into the whole text. At most `maxErrors` failures are reported in detail, and at the end
all are counted.
-/

namespace Calculator

/-- A line of a worksheet, without its line end. -/
structure Line where
  /-- The number of the line, from one. -/
  number : Nat
  /-- Where the line begins in the worksheet. -/
  start : Nat
  text : List Char
deriving DecidableEq, Repr

namespace Line

/-- The lines that the pieces of a text make, the first with the given number and start. -/
def ofPieces (number start : Nat) : List (List Char) → List Line
  | [] => []
  | piece :: rest =>
      ⟨number, start, withoutLineEnd piece⟩ :: ofPieces (number + 1) (start + byteLength piece) rest

/-- The lines of a text. -/
def allOf (text : List Char) : List Line := ofPieces 1 0 (pieces text)

/-- Whether a line is passed over. -/
def isVoid (l : Line) : Bool := l.text.all isBlank

/-- What the calculation of a line comes to. -/
structure Result where
  notices : List Notice
  /-- The trees of the line, if its tokens are a forest. -/
  forest : Option Forest
  outcome : Except Fault (Option Float)

/-- Whether a line failed. -/
def Result.failed (r : Result) : Bool :=
  match r.outcome with
  | .ok _ => false
  | .error _ => true

/-- What the journal says of the result of a line. -/
def event (l : Line) : Except Fault (Option Float) → Event
  | .ok (some x) => .evaluatedLine l.number (Number.display x)
  | .ok none => .emptyLine l.number
  | .error fault => .failedLine l.number fault.message

/-- Calculates a line and records every stage. -/
def record (l : Line) : Logged Result := do
  let items ← recordItems (String.ofList l.text)
  let notices := noticesOf items
  let result ← match ← recordForest (tokensOf items) with
    | .error fault => pure ⟨notices, none, .error (.parse fault)⟩
    | .ok forest =>
        match ← forest.recordValue with
        | .error fault => pure ⟨notices, some forest, .error (.value fault)⟩
        | .ok value => pure ⟨notices, some forest, .ok value⟩
  Logged.record [l.event result.outcome]
  return result

end Line

/-- How a worksheet is to be run. -/
structure Mode where
  /-- How many failures are reported in detail. -/
  maxErrors : Nat := 4
  /-- Whether the trees of a line are printed before its value. -/
  showTrees : Bool := false
  /-- Whether diagnostics are held back. -/
  quiet : Bool := false
deriving DecidableEq, Repr

namespace Mode

/-- Reports a diagnostic, unless the mode is quiet. -/
def report (m : Mode) (source : Source) (d : Diagnostic) : List Output :=
  if m.quiet then [] else [.reported source d]

end Mode

/-- What a worksheet comes to. -/
structure Summary where
  /-- How many lines failed. -/
  failed : Nat
  outputs : List Output
deriving DecidableEq, Repr

namespace Worksheet

/-- What a line shows before its result: a warning for every character passed over, then,
if asked for, its trees. -/
def preface (m : Mode) (source : Source) (l : Line) (r : Line.Result) : List Output :=
  r.notices.flatMap (fun n => m.report source (n.diagnostic.shift l.start)) ++
    match r.forest with
    | some forest => if m.showTrees then [.printed (forest.polish ++ "\n")] else []
    | none => []

/-- What a line shows. A failure is shown only if it is still to be reported in detail. -/
def lineOutputs (m : Mode) (source : Source) (detailed : Bool) (l : Line) (r : Line.Result) :
    List Output :=
  preface m source l r ++
    match r.outcome with
    | .ok (some x) => [.printed (Number.display x ++ "\n")]
    | .ok none => []
    | .error fault => if detailed then m.report source (fault.diagnostic.shift l.start) else []

/-- How far a worksheet has been run. -/
structure Progress where
  /-- How many lines have failed. -/
  failed : Nat := 0
  /-- How many failures have been reported in detail. -/
  displayed : Nat := 0
  /-- What has been shown, latest first. -/
  shown : List Output := []
deriving DecidableEq, Repr

/-- Goes on with a line. A failure is reported in detail while fewer have been than the mode
allows. -/
def step (m : Mode) (source : Source) (p : Progress) (l : Line) : Logged Progress := do
  if l.isVoid then
    return p
  else
    let r ← l.record
    let detailed := decide (p.displayed < m.maxErrors)
    let shown := (lineOutputs m source detailed l r).reverse ++ p.shown
    if r.failed then
      return ⟨p.failed + 1, if detailed then p.displayed + 1 else p.displayed, shown⟩
    else
      return { p with shown }

/-- The closing report on a worksheet in which lines failed. -/
def closing (name : String) (failed displayed : Nat) : Diagnostic :=
  let noun := if 1 < failed then "errors" else "error"
  .general s!"could not evaluate {name} due to {failed} previous {noun} ({displayed} emitted)"

/-- Runs a worksheet line by line and records every stage. -/
def record (m : Mode) (source : Source) : Logged Summary := do
  let p ← (Line.allOf source.text.toList).foldlM (step m source) {}
  let conclusion :=
    if p.failed = 0 then [] else m.report source (closing source.name p.failed p.displayed)
  return ⟨p.failed, p.shown.reverse ++ conclusion⟩

end Worksheet

end Calculator
