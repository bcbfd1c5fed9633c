import Calculator.CommandLine.Config
import Calculator.Number.Literal

/-!
# Reading a command line

Arguments are read from left to right. An option's value is part of the same argument or
the whole next one; the next one does not count when it looks like an option. A value of
the second kind, like a file name, is taken up only when the argument behind it is
understood: an argument that is not understood is reported before a value that does not
fit. Whether two inputs are named is looked at in the end.
-/

namespace Calculator.CommandLine

/-- How an argument reads on its face. -/
inductive Shape
  /-- Two dashes: all that follows is positional. -/
  | terminator
  /-- A long option, and the text behind its first `=`. -/
  | long (name : String) (value : Option String)
  /-- Letters behind a single dash. -/
  | short (letters : List Char)
  | plain
deriving DecidableEq, Repr

/-- A long option is cut at its first `=`. -/
def Shape.ofLong (cs : List Char) : Shape :=
  let name := String.ofList (cs.takeWhile (· != '='))
  match cs.dropWhile (· != '=') with
  | [] => long name none
  | _ :: value => long name (some (String.ofList value))

/-- How an argument reads on its face. A dash alone is plain. -/
def Shape.of (argument : String) : Shape :=
  match argument.toList with
  | ['-', '-'] => terminator
  | '-' :: '-' :: cs => ofLong cs
  | ['-'] => plain
  | '-' :: letters => short letters
  | _ => plain

/-- The largest number of errors that can be asked for is one less than this. -/
def countBound : Nat := Nat.pow 2 64

/-- A count: digits, with an optional plus sign in front. -/
def count? (text : String) : Option Nat :=
  let digits := match text.toList with
    | '+' :: cs => cs
    | cs => cs
  if digits ≠ [] ∧ digits.all Char.isDigit then
    let n := Number.natOfDigits digits
    if n < countBound then some n else none
  else
    none

/-- What has been taken up so far. -/
structure Given where
  file : Option String := none
  expr : Option String := none
  stdin : Bool := false
  ast : Bool := false
  quiet : Bool := false
  maxErrors : Option Nat := none
deriving DecidableEq, Repr

namespace Given

/-- Takes up an option without a value. -/
def turnOn (g : Given) : Switch → Except UsageError Given
  | .stdin => if g.stdin then .error .repeated else .ok { g with stdin := true }
  | .ast => if g.ast then .error .repeated else .ok { g with ast := true }
  | .quiet => if g.quiet then .error .repeated else .ok { g with quiet := true }

/-- Takes up an option with its value. -/
def assign (g : Given) (s : Setting) (value : String) : Except UsageError Given :=
  match s with
  | .expr => if g.expr.isSome then .error .repeated else .ok { g with expr := some value }
  | .maxErrors =>
      if g.maxErrors.isSome then
        .error .repeated
      else
        match count? value with
        | some n => .ok { g with maxErrors := some n }
        | none => .error .invalidValue

/-- The configuration, unless two inputs are named. -/
def config (g : Given) : Except UsageError Config :=
  if (g.expr.isSome && (g.file.isSome || g.stdin)) || (g.stdin && g.file.isSome) then
    .error .conflicting
  else
    .ok ⟨g.file, g.expr, g.stdin, g.ast, g.quiet, g.maxErrors.getD 4⟩

end Given

/-- What is to be taken up when the next argument is understood. -/
inductive Deferred
  | nothing
  /-- An option, with its value once that has come. -/
  | setting (s : Setting) (value : Option String)
  | file (path : String)
deriving DecidableEq, Repr

/-- How far a command line has been read. -/
structure Reading where
  given : Given := {}
  deferred : Deferred := .nothing
deriving DecidableEq, Repr

namespace Reading

/-- Takes up what was deferred. -/
def settle (r : Reading) : Except UsageError Given :=
  match r.deferred with
  | .nothing => .ok r.given
  | .setting _ none => .error .missingValue
  | .setting s (some value) => r.given.assign s value
  | .file path => .ok { r.given with file := some path }

/-- Whether a file has been named. -/
def hasFile (r : Reading) : Bool :=
  r.given.file.isSome ||
    match r.deferred with
    | .file _ => true
    | _ => false

/-- An option without a value. -/
def switch (r : Reading) (s : Switch) : Except UsageError Reading := do
  let given ← r.settle
  return { given := ← given.turnOn s }

/-- An option with a value that is part of the same argument, or is still to come. -/
def setting (r : Reading) (s : Setting) (value : Option String) : Except UsageError Reading := do
  let given ← r.settle
  match value with
  | some v => return { given := ← given.assign s v }
  | none => return { given, deferred := .setting s none }

/-- A request for help ends the reading. -/
def help (r : Reading) : Except UsageError Reading := do
  let _ ← r.settle
  throw .helpRequested

/-- A positional argument names the file. There can be one. -/
def positional (r : Reading) (argument : String) : Except UsageError Reading := do
  if r.hasFile then
    throw .unknownArgument
  else
    return { given := ← r.settle, deferred := .file argument }

/-- A long option. -/
def long (r : Reading) (name : String) (value : Option String) : Except UsageError Reading :=
  match Flag.ofLong? name, value with
  | none, _ => .error .unknownArgument
  | some (.setting s), value => r.setting s value
  | some _, some _ => .error .unneededValue
  | some .help, none => r.help
  | some (.switch s), none => r.switch s

/-- The value that follows an option's letter in the same argument, behind an optional `=`. -/
def attached : List Char → Option String
  | [] => none
  | '=' :: cs => some (String.ofList cs)
  | cs => some (String.ofList cs)

/-- Short options joined behind one dash. -/
def short (r : Reading) : List Char → Except UsageError Reading
  | [] => .ok r
  | c :: cs =>
      match Flag.ofShort? c with
      | none => .error .unknownArgument
      | some .help => r.help
      | some (.switch s) => do (← r.switch s).short cs
      | some (.setting s) => r.setting s (attached cs)

/-- An argument that does not look like an option: a value that is still to come, or a
positional. -/
def plain (r : Reading) (argument : String) : Except UsageError Reading :=
  match r.deferred with
  | .setting s none => .ok { r with deferred := .setting s (some argument) }
  | _ => r.positional argument

/-- Reads the arguments that are left. -/
def readAll (r : Reading) : List String → Except UsageError Given
  | [] => r.settle
  | argument :: rest =>
      match Shape.of argument with
      | .terminator => do (← rest.foldlM positional r).settle
      | .long name value => do (← r.long name value).readAll rest
      | .short letters => do (← r.short letters).readAll rest
      | .plain => do (← r.plain argument).readAll rest

end Reading

/-- What a list of arguments asks for. -/
def Config.ofArguments (arguments : List String) : Except UsageError Config := do
  (← Reading.readAll {} arguments).config

end Calculator.CommandLine
