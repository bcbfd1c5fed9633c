import Calculator.Diagnostic.Source

/-!
# Output

What a program run shows, in order and by kind. The outer layer only has to carry it out.
-/

namespace Calculator

/-- One thing that is shown. -/
inductive Output
  /-- Text on standard output. -/
  | printed (text : String)
  /-- Text on standard error. -/
  | complained (text : String)
  /-- A diagnostic about a source. -/
  | reported (source : Source) (d : Diagnostic)
  /-- The prompt of the keypad. -/
  | prompted (text : String)
  /-- What the keypad shows while its history is searched. -/
  | searched (text : String)
  /-- What the keypad shows before the further lines of an entry. -/
  | continued (text : String)
deriving DecidableEq, Repr

namespace Output

/-- Puts one output in front of others. Text that goes to the same place is joined. -/
def cons (o : Output) (os : List Output) : List Output :=
  match o, os with
  | printed a, printed b :: rest => printed (a ++ b) :: rest
  | complained a, complained b :: rest => complained (a ++ b) :: rest
  | o, os => o :: os

/-- The same outputs with neighbouring texts joined. -/
def joined (os : List Output) : List Output := os.foldr cons []

/-- What is written to standard output. -/
def standardOutput : Output → String
  | printed text | prompted text | searched text | continued text => text
  | complained _ | reported .. => ""

/-- What is written to standard error. -/
def standardError : Output → String
  | complained text => text
  | reported source d => source.render d
  | printed _ | prompted _ | searched _ | continued _ => ""

end Output

end Calculator
