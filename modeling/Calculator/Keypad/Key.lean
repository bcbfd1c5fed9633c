/-!
# Keys

What can be pressed on the keypad. Some characters are commands; every other character
is typed as it is.
-/

namespace Calculator

/-- A key of the keypad. -/
inductive Key
  /-- Types a character. -/
  | input (c : Char)
  /-- Types an operator. -/
  | operator (c : Char)
  /-- Types a decimal point, once per number. -/
  | dot
  /-- Takes back the latest entry. -/
  | delete
  /-- Clears the screen. -/
  | cancel
  /-- Replaces the screen by its value. -/
  | equals
deriving DecidableEq, Repr

/-- The key that a character stands for. -/
def Key.ofChar (c : Char) : Key :=
  match c with
  | '=' => equals
  | 'C' | 'c' => cancel
  | '<' => delete
  | '.' => dot
  | '+' | '-' | '*' | '/' => operator c
  | _ => input c

end Calculator
