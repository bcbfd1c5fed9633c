/-!
# The shortest decimal that reads back

A double stands for all numbers that round to it, an interval around its value.
`shortest` is a decimal in that interval with as few digits as possible; of several with
that many digits it is the one nearest to the value, and of two equally near the larger.
All arithmetic is exact: the interval and the value are numerators over one denominator.
-/

namespace Calculator.Number

/-- The number `coefficient · 10 ^ exponent`. -/
structure Decimal where
  coefficient : Nat
  exponent : Int
deriving DecidableEq, Repr

/-- A positive value with the numbers that round to it, over a common denominator.
The ends count as inside if `closed`. -/
structure Interval where
  low : Nat
  value : Nat
  high : Nat
  denominator : Nat
  closed : Bool
deriving DecidableEq, Repr

namespace Interval

/-- What rounds to `mantissa · 2 ^ exponent`: half the way to each neighbour. A half goes
to an even mantissa. All four numbers are in units of a quarter of the mantissa's unit. -/
def ofBinary (mantissa : Nat) (exponent : Int) (narrow : Bool) : Interval :=
  let unit := Nat.pow 2 (exponent - 2).toNat
  { low := (4 * mantissa - if narrow then 1 else 2) * unit
    value := 4 * mantissa * unit
    high := (4 * mantissa + 2) * unit
    denominator := Nat.pow 2 (2 - exponent).toNat
    closed := mantissa % 2 = 0 }

/-- The same interval measured in units of `10 ^ e`. -/
def inUnits (i : Interval) (e : Int) : Interval :=
  let scale := Nat.pow 10 (-e).toNat
  { i with
    low := i.low * scale
    value := i.value * scale
    high := i.high * scale
    denominator := i.denominator * Nat.pow 10 e.toNat }

/-- Whether the whole number `n` is inside. -/
def contains (i : Interval) (n : Nat) : Bool :=
  if i.closed then
    i.low ≤ n * i.denominator && n * i.denominator ≤ i.high
  else
    i.low < n * i.denominator && n * i.denominator < i.high

/-- The whole number inside that is nearest to the value, the larger of two. Only the two
whole numbers around the value have to be tried. -/
def nearest? (i : Interval) : Option Nat :=
  let below := i.value / i.denominator
  match i.contains below, i.contains (below + 1) with
  | true, true =>
      if i.value - below * i.denominator < (below + 1) * i.denominator - i.value then
        some below
      else
        some (below + 1)
  | true, false => some below
  | false, true => some (below + 1)
  | false, false => none

/-- The exponent of the value's leading decimal digit. -/
def leadingExponent (i : Interval) : Int :=
  if i.denominator ≤ i.value then
    (Nat.toDigits 10 (i.value / i.denominator)).length - 1
  else
    -(Nat.toDigits 10 ((i.denominator - 1) / i.value)).length

/-- The first of the grids with 1, 2, … 17 digits that has a number inside decides. -/
def shortest (i : Interval) : Decimal :=
  let top := i.leadingExponent
  let attempt (digits : Nat) : Option Decimal :=
    let e := top - digits
    (i.inUnits e).nearest?.map fun n => if n = 10 then ⟨1, e + 1⟩ else ⟨n, e⟩
  ((List.range 17).findSome? attempt).getD ⟨i.value / i.denominator, 0⟩

/-- What `nearest?` finds is inside. -/
theorem contains_of_nearest? {i : Interval} {n : Nat} (h : i.nearest? = some n) :
    i.contains n = true := by
  unfold nearest? at h
  simp only at h
  split at h
  · split at h <;> simp_all
  all_goals simp_all

end Interval

end Calculator.Number
