import Calculator.CommandLine.Arguments
import Calculator.Keypad.Session

/-!
# Running a command line

What a run of the calculator prints and how it exits, given its arguments, its standard
input and the files it can see. The exit code is 0 for success, 1 if a line failed or the
input cannot be read, and 2 if the command line was not understood.
-/

namespace Calculator.CommandLine

/-- What a run leaves behind. -/
structure Exit where
  code : Nat
  stdout : String
  stderr : String
deriving DecidableEq, Repr

namespace Exit

/-- The outputs of a run, each on its channel. -/
def ofOutputs (code : Nat) (outputs : List Output) : Exit where
  code := code
  stdout := String.join (outputs.map Output.standardOutput)
  stderr := String.join (outputs.map Output.standardError)

end Exit

/-- Why a file that does not exist cannot be read. -/
def noSuchFile : String := "No such file or directory (os error 2)"

/-- The source that a configuration names, if it names one and it can be read. -/
def Config.source (c : Config) (stdin : String) (readFile : String → Except String String) :
    Except String (Option Source) :=
  match c.input with
  | .expression text => .ok (some ⟨"<expr>", text⟩)
  | .standardInput => .ok (some ⟨"<stdin>", stdin⟩)
  | .file path => do return some ⟨path, ← readFile path⟩
  | .keypad => .ok none

/-- The exit code of a run. -/
def codeOf (success : Bool) : Nat := if success then 0 else 1

/-- Runs what a configuration asks for. Without a source, every line of standard input is
entered on the keypad. -/
def Config.run (c : Config) (stdin : String) (readFile : String → Except String String) : Exit :=
  match c.source stdin readFile with
  | .error reason => .ofOutputs 1 [.complained s!"error: {reason}\n"]
  | .ok (some source) =>
      let summary := (Worksheet.record c.mode source).value
      .ofOutputs (codeOf (summary.failed == 0)) summary.outputs
  | .ok none =>
      let lines := (Line.allOf stdin.toList).map fun l => Signal.line (String.ofList l.text)
      let ending := (Session.record c.quiet lines).value
      .ofOutputs (codeOf ending.success) ending.outputs

/-- How the calculator is called. -/
def usage : String := "Usage: calculator [OPTIONS] [FILE]\n"

/-- What a command line that is not carried out is answered with. Only a request for help
counts as success. -/
def UsageError.exit (e : UsageError) : Exit :=
  match e with
  | .helpRequested => ⟨0, usage, ""⟩
  | _ => ⟨2, "", s!"error: {e.message}\n\n" ++ usage⟩

/-- A run of the calculator. -/
def run (arguments : List String) (stdin : String) (readFile : String → Except String String) :
    Exit :=
  match Config.ofArguments arguments with
  | .error e => e.exit
  | .ok config => config.run stdin readFile

end Calculator.CommandLine
