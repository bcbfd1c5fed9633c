import Calculator.Fault
import Calculator.Token

/-!
# Diagnostics

What the user is told about an input: how bad it is, in words, and the place it is about.
A diagnostic is made for one line and moved to where the line stands in its file.
-/

namespace Calculator

/-- How bad it is. -/
inductive Severity
  | error
  | warning
deriving DecidableEq, Repr

/-- A place with a remark, which may be empty. -/
structure Label where
  span : Span
  remark : String
deriving DecidableEq, Repr

/-- What the user is told. -/
structure Diagnostic where
  severity : Severity
  message : String
  /-- The place it is about; none if it is about the whole input. -/
  label : Option Label
deriving DecidableEq, Repr

/-- The same diagnostic for a text that stands `n` bytes into its file. -/
def Diagnostic.shift (d : Diagnostic) (n : Nat) : Diagnostic :=
  { d with label := d.label.map fun l => { l with span := l.span.shift n } }

/-- A character that was passed over is a warning. -/
def Notice.diagnostic (n : Notice) : Diagnostic where
  severity := .warning
  message := n.message
  label := some ⟨n.span, "ignored"⟩

/-- The remark at the place that is to blame. -/
def Fault.remark : Fault → String
  | parse ⟨.unclosedGroup, _⟩ => "this parenthesis is never closed"
  | _ => ""

/-- A line that fails is an error. -/
def Fault.diagnostic (f : Fault) : Diagnostic where
  severity := .error
  message := f.message
  label := some ⟨f.span, f.remark⟩

/-- An error that is about the whole input. -/
def Diagnostic.general (message : String) : Diagnostic where
  severity := .error
  message := message
  label := none

end Calculator
