/-!
# The text of a number

`valueOf?` reads a number: an optional sign; then digits with at most one point among
them and at least one digit, and an optional exponent (`e` or `E`, an optional sign and
at least one digit), or one of the words `inf`, `infinity` and `nan` in any letter case.
Nothing else is a number: no blanks, no empty text, no lone point. The value is the
double nearest to what the digits say.
-/

namespace Calculator.Number

/-- The value of a digit. -/
def digitValue (c : Char) : Nat := c.toNat - '0'.toNat

/-- The number that a list of digits spells. -/
def natOfDigits (cs : List Char) : Nat :=
  cs.foldl (fun n c => 10 * n + digitValue c) 0

/-- The size of an exponent. Beyond 65536 further digits are of no account: no number
written out is long enough for them to matter. -/
def exponentOfDigits (cs : List Char) : Nat :=
  cs.foldl (fun n c => if n < 65536 then 10 * n + digitValue c else n) 0

/-- Separates an optional sign; `true` stands for minus. -/
def splitSign : List Char → Bool × List Char
  | '-' :: cs => (true, cs)
  | '+' :: cs => (false, cs)
  | cs => (false, cs)

/-- The exponent that follows the digits, to the end of the text. -/
def exponent? : List Char → Option Int
  | [] => some 0
  | c :: cs =>
      let (negative, digits) := splitSign cs
      if (c = 'e' ∨ c = 'E') ∧ digits ≠ [] ∧ digits.all Char.isDigit then
        some (if negative then -(exponentOfDigits digits : Int) else exponentOfDigits digits)
      else
        none

/-- The double nearest to `coefficient · 10 ^ exponent`. -/
def nearestFloat (coefficient : Nat) (exponent : Int) : Float :=
  Float.ofScientific coefficient (exponent < 0) exponent.natAbs

/-- Digits behind a point, if there is one, and what follows them. -/
def splitFraction : List Char → List Char × List Char
  | '.' :: cs => (cs.takeWhile Char.isDigit, cs.dropWhile Char.isDigit)
  | cs => ([], cs)

/-- A number in digits, without its sign. -/
def decimal? (cs : List Char) : Option Float :=
  let whole := cs.takeWhile Char.isDigit
  let (fraction, rest) := splitFraction (cs.dropWhile Char.isDigit)
  if whole = [] ∧ fraction = [] then
    none
  else
    (exponent? rest).map fun e =>
      nearestFloat (natOfDigits (whole ++ fraction)) (e - fraction.length)

/-- A number in words, without its sign. -/
def word? (cs : List Char) : Option Float :=
  let word := String.ofList (cs.map Char.toLower)
  if word = "inf" ∨ word = "infinity" then some (1.0 / 0.0)
  else if word = "nan" then some (0.0 / 0.0)
  else none

/-- The value of the text of a number, if it is one. -/
def valueOf? (text : List Char) : Option Float :=
  let (negative, cs) := splitSign text
  (decimal? cs <|> word? cs).map fun x => if negative then -x else x

example : (valueOf? "12.5e-1".toList).map Float.toBits = some (1.25 : Float).toBits := by
  decide +kernel
example : valueOf? "1.2.3".toList = none ∧ valueOf? ".".toList = none := by decide +kernel

end Calculator.Number
