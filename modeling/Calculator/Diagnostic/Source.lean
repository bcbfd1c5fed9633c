import Calculator.Diagnostic
import Calculator.Text.Line

/-!
# Diagnostics in their source

A source is a text with a name. A diagnostic with a label is shown with the line that the
label begins on, and carets under the characters that it covers.
-/

namespace Calculator

/-- A text with the name it is known by. -/
structure Source where
  name : String
  text : String
deriving DecidableEq, Repr

namespace Source

/-- A byte position of the source as name, line and column. -/
def locate (s : Source) (byte : Nat) : String :=
  let place := placeOf s.text.toList byte
  s.name ++ ":" ++ toString place.line ++ ":" ++ toString place.column

/-- The number of characters that a label marks, at least one. -/
def width (s : Source) (span : Span) : Nat :=
  max 1 (((span.slice? s.text.toList).getD []).length)

/-- `n` blanks. -/
def blanks (n : Nat) : String := String.ofList (List.replicate n ' ')

/-- The lines that show a label in the source. -/
def excerpt (s : Source) (label : Label) : List String :=
  let place := placeOf s.text.toList label.span.lo
  let number := toString place.line
  let margin := blanks (number.length + 1)
  let carets := String.ofList (List.replicate (s.width label.span) '^')
  let remark := if label.remark.isEmpty then "" else " " ++ label.remark
  [ margin ++ "┌─ " ++ s.locate label.span.lo,
    margin ++ "│",
    number ++ " │ " ++ String.ofList (lineAt s.text.toList place.line),
    margin ++ "│ " ++ blanks (place.column - 1) ++ carets ++ remark ]

/-- A diagnostic about the source as it is printed: its headline, the excerpt if it has a
label, and an empty line. -/
def render (s : Source) (d : Diagnostic) : String :=
  let severity := match d.severity with
    | .error => "error"
    | .warning => "warning"
  let headline := severity ++ ": " ++ d.message
  let lines := headline :: (d.label.map s.excerpt).getD [] ++ [""]
  String.join (lines.map (· ++ "\n"))

end Source

end Calculator
