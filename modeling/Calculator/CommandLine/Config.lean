import Calculator.Worksheet

/-!
# What a command line can ask for

The options of the calculator and the configuration they spell. At most one input can be
named: an expression, standard input, or a file; without one the keypad is started.
-/

namespace Calculator.CommandLine

/-- Options that take a value. -/
inductive Setting
  | expr
  | maxErrors
deriving DecidableEq, Repr

/-- Options that are given or not. -/
inductive Switch
  | stdin
  | ast
  | quiet
deriving DecidableEq, Repr

/-- The options. -/
inductive Flag
  | help
  | switch (s : Switch)
  | setting (s : Setting)
deriving DecidableEq, Repr

/-- The option with a long name. Names are not abbreviated. -/
def Flag.ofLong? (name : String) : Option Flag :=
  if name = "help" then some help
  else if name = "expr" then some (setting .expr)
  else if name = "max-errors" then some (setting .maxErrors)
  else if name = "stdin" then some (switch .stdin)
  else if name = "ast" then some (switch .ast)
  else if name = "quiet" then some (switch .quiet)
  else none

/-- The option with a short name. -/
def Flag.ofShort? : Char → Option Flag
  | 'h' => some help
  | 'e' => some (setting .expr)
  | 'q' => some (switch .quiet)
  | _ => none

/-- Why a command line is not carried out. -/
inductive UsageError
  /-- There is no such option, or a second file. -/
  | unknownArgument
  /-- An option that needs a value has none. -/
  | missingValue
  /-- A value is not what its option needs. -/
  | invalidValue
  /-- A value is given to an option that takes none. -/
  | unneededValue
  /-- An option is given twice. -/
  | repeated
  /-- Two inputs are named. -/
  | conflicting
  /-- The user asks for help. -/
  | helpRequested
deriving DecidableEq, Repr

/-- What the user is told. -/
def UsageError.message : UsageError → String
  | unknownArgument => "unexpected argument"
  | missingValue => "a value is required"
  | invalidValue => "invalid value"
  | unneededValue => "unexpected value"
  | repeated => "an argument cannot be used multiple times"
  | conflicting => "an argument cannot be used with another"
  | helpRequested => "help requested"

/-- What a command line asks for. -/
structure Config where
  file : Option String := none
  expr : Option String := none
  stdin : Bool := false
  ast : Bool := false
  quiet : Bool := false
  maxErrors : Nat := 4
deriving DecidableEq, Repr

/-- Where the calculator takes its input from. -/
inductive InputSource
  | expression (text : String)
  | standardInput
  | file (path : String)
  | keypad
deriving DecidableEq, Repr

/-- The input that a configuration names. An expression comes before standard input, and
that before a file. -/
def Config.input (c : Config) : InputSource :=
  match c.expr, c.stdin, c.file with
  | some text, _, _ => .expression text
  | none, true, _ => .standardInput
  | none, false, some path => .file path
  | none, false, none => .keypad

/-- How a configuration runs a worksheet. -/
def Config.mode (c : Config) : Mode := ⟨c.maxErrors, c.ast, c.quiet⟩

end Calculator.CommandLine
