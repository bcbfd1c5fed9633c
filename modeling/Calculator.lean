import Calculator.Main
import Calculator.Proofs.Grammar
import Calculator.Proofs.Expr.Built
import Calculator.Proofs.Expr.Reading
import Calculator.Proofs.Forest.Formed
import Calculator.Proofs.Forest.Language
import Calculator.Proofs.Expr.Canonical
import Calculator.Proofs.Forest.Canonical
import Calculator.Proofs.Token.Partition
import Calculator.Proofs.Forest.RoundTrip
import Calculator.Proofs.Expr.Stopping
import Calculator.Proofs.Forest.Refusal
import Calculator.Proofs.Expr.Nodes
import Calculator.Proofs.Forest.Slices
import Calculator.Proofs.Calculation
import Calculator.Proofs.Number.Display
import Calculator.Proofs.Number.Literal
import Calculator.Proofs.Token.Runs
import Calculator.Proofs.Keypad.Points
import Calculator.Proofs.Keypad.Echo
import Calculator.Proofs.Text.Lines
import Calculator.Proofs.Output
import Calculator.Proofs.Worksheet.Results
import Calculator.Proofs.Worksheet.Printed
import Calculator.Proofs.Worksheet.Reports
import Calculator.Proofs.Fault
import Calculator.Proofs.Worksheet.Labels
import Calculator.Proofs.Keypad.Pressing
import Calculator.Proofs.Number.Parts
import Calculator.Proofs.Number.Shown
import Calculator.Proofs.Number.Spelling
import Calculator.Proofs.Number.Interval
import Calculator.Proofs.Number.Rounding
import Calculator.Proofs.Number.Nearest
import Calculator.Proofs.Number.Shortest
import Calculator.Proofs.Number.ReadBack
import Calculator.Proofs.Token.Joining
import Calculator.Proofs.Reentry
import Calculator.Proofs.Keypad.Again
import Calculator.Proofs.Expr.Alike
import Calculator.Proofs.Forest.Alike
import Calculator.Proofs.Verdict
import Calculator.Proofs.Continuation
import Calculator.Proofs.Token.Arithmetic
import Calculator.Proofs.Keypad.Session
import Calculator.Proofs.Keypad.Agreement
import Calculator.Proofs.Forest.Joining
import Calculator.Proofs.Ending
import Calculator.Proofs.Forest.Places
import Calculator.Proofs.Expr.Replacing
import Calculator.Proofs.Parentheses
import Calculator.Proofs.Token.Blanking
import Calculator.Proofs.Independence
import Calculator.Proofs.Worksheet.Warnings
import Calculator.Proofs.Forest.Height
import Calculator.Proofs.Forest.Polish
import Calculator.Proofs.Forest.Calls
import Calculator.Proofs.Keypad.Splitting
import Calculator.Proofs.Recording
import Calculator.Proofs.Keypad.Entries
import Calculator.Proofs.Token.Stepping
import Calculator.Proofs.CommandLine.Mentions
import Calculator.Proofs.CommandLine.Reading
import Calculator.Proofs.CommandLine.Decoding
