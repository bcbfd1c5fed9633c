import Calculator.Number.Binary
import Calculator.Number.Shortest

/-!
# Numbers as the calculator shows them

A finite number is shown by the fewest digits that read back to it, always in positional
notation: no exponent, and a point only in front of a fraction. Both zeros are shown as
`0`, because `-0` could not be typed back in.
-/

namespace Calculator.Number

/-- A decimal in positional notation. -/
def Decimal.positional (d : Decimal) : List Char :=
  let digits := Nat.toDigits 10 d.coefficient
  let places := (-d.exponent).toNat
  if places = 0 then
    digits ++ List.replicate d.exponent.toNat '0'
  else if places < digits.length then
    digits.take (digits.length - places) ++ '.' :: digits.drop (digits.length - places)
  else
    '0' :: '.' :: List.replicate (places - digits.length) '0' ++ digits

/-- A magnitude as it is shown behind its sign. -/
def Magnitude.display : Magnitude → List Char
  | .zero => ['0']
  | .finite m q narrow => (Interval.ofBinary m q narrow).shortest.positional
  | .infinite => "Infinity".toList
  | .nan => "NaN".toList

/-- Only negative numbers other than zero show a sign. -/
def View.display (v : View) : List Char :=
  match v.magnitude with
  | .zero | .nan => v.magnitude.display
  | .finite .. | .infinite => if v.negative then '-' :: v.magnitude.display else v.magnitude.display

/-- A number as the calculator shows it. -/
def display (x : Float) : String := String.ofList (view x).display

example : display 0.1 = "0.1" ∧ display 14 = "14" ∧ display (-2.5) = "-2.5" := by decide +kernel
example : display (-0.0) = "0" ∧ display (1.0 / 0.0) = "Infinity" := by decide +kernel
example : display 1e21 = "1000000000000000000000" := by decide +kernel
example : display 1e-7 = "0.0000001" := by decide +kernel

end Calculator.Number
