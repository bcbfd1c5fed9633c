import Calculator.CommandLine.Run

/-!
# The calculator as a program

Carries out what a command line asks for. A keypad session is held line by line, so that
every prompt is seen before its line is entered; all else is computed first and then
printed.
-/

namespace Calculator.CommandLine

/-- Writes outputs to their channels. -/
def showAll (outputs : List Output) : IO Unit := do
  for o in outputs do
    IO.print o.standardOutput
    IO.eprint o.standardError
  (← IO.getStdout).flush

/-- A line from standard input, without its line end; none at the end of the input. -/
def nextLine? : IO (Option String) := do
  let line ← (← IO.getStdin).getLine
  return if line.isEmpty then none else some (String.ofList (withoutLineEnd line.toList))

/-- Holds a keypad session until standard input ends. -/
partial def converse (quiet : Bool) (screen : Screen) : IO Unit := do
  showAll [Session.prompt screen]
  match ← nextLine? with
  | none => return
  | some line =>
      let (outputs, after) := (Session.enter quiet screen line).value
      showAll outputs
      converse quiet after

/-- The content of a file, or why it cannot be read. -/
def contentOf (path : String) : IO (Except String String) := do
  try
    return .ok (← IO.FS.readFile path)
  catch
    | .noFileOrDirectory .. => return .error noSuchFile
    | e => return .error (toString e)

/-- Prints what a run leaves behind. -/
def Exit.carryOut (e : Exit) : IO UInt32 := do
  IO.print e.stdout
  IO.eprint e.stderr
  return e.code.toUInt32

/-- Carries out what a configuration asks for. -/
def Config.carryOut (c : Config) : IO UInt32 := do
  match c.input with
  | .keypad =>
      converse c.quiet {}
      return 0
  | .file path =>
      let content ← contentOf path
      (c.run "" fun _ => content).carryOut
  | .standardInput => (c.run (← (← IO.getStdin).readToEnd) .error).carryOut
  | .expression _ => (c.run "" .error).carryOut

end Calculator.CommandLine

/-- Runs the calculator. -/
def main (arguments : List String) : IO UInt32 :=
  match Calculator.CommandLine.Config.ofArguments arguments with
  | .error e => e.exit.carryOut
  | .ok config => config.carryOut
