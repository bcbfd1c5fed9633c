/-!
# What a double stands for

A double is a sign and a magnitude: zero, a positive multiple of a power of two,
infinity, or no number at all. `view` reads this off the 64 bits.
-/

namespace Calculator.Number

/-- The size of a double, its sign apart. -/
inductive Magnitude
  | zero
  /-- The value `mantissa · 2 ^ exponent`. Below a power of two the doubles lie twice as
  dense; `narrow` marks the values whose lower neighbour is only half as far as the upper. -/
  | finite (mantissa : Nat) (exponent : Int) (narrow : Bool)
  | infinite
  | nan
deriving DecidableEq, Repr

/-- A double as sign and magnitude. -/
structure View where
  negative : Bool
  magnitude : Magnitude
deriving DecidableEq, Repr

/-- The magnitude with the given 11 bits of exponent and 52 bits of fraction. -/
def Magnitude.ofFields (exponent fraction : Nat) : Magnitude :=
  if exponent = 2047 then
    if fraction = 0 then .infinite else .nan
  else if exponent = 0 then
    if fraction = 0 then .zero else .finite fraction (-1074) false
  else
    .finite (Nat.pow 2 52 + fraction) ((exponent : Int) - 1075) (fraction = 0 ∧ 1 < exponent)

/-- The sign and magnitude that 64 bits encode. -/
def View.ofBits (bits : Nat) : View where
  negative := bits / Nat.pow 2 63 % 2 = 1
  magnitude := .ofFields (bits / Nat.pow 2 52 % Nat.pow 2 11) (bits % Nat.pow 2 52)

/-- The sign and magnitude of a double. -/
def view (x : Float) : View := .ofBits x.toBits.toNat

end Calculator.Number
