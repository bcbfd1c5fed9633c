import Calculator.Text.Blank
import Calculator.Text.Bytes

/-!
# Lines and places in a text

A text falls into pieces, each ending behind a line feed or at the end of the text;
`flatten_pieces` says that nothing is lost. A piece without its line end is a line.
Only the line feed ends a line; a carriage return before it belongs to the line end.
-/

namespace Calculator

/-- Cuts a text behind every line feed. -/
def pieces : List Char → List (List Char)
  | [] => []
  | c :: cs =>
      if c = '\n' then
        [c] :: pieces cs
      else
        match pieces cs with
        | [] => [[c]]
        | p :: ps => (c :: p) :: ps

/-- The pieces of a text are the text. -/
@[simp] theorem flatten_pieces (cs : List Char) : (pieces cs).flatten = cs := by
  induction cs with
  | nil => rfl
  | cons c cs ih =>
      simp only [pieces]
      split
      · simp [ih]
      · split
        · rename_i h
          rw [h] at ih
          simp [← ih]
        · rename_i h
          rw [h] at ih
          simp [← ih]

/-- Whether a character belongs to a line end. -/
def isLineEnd (c : Char) : Bool := c == '\n' || c == '\r'

/-- A text without the line ends that close it. -/
def withoutLineEnd (cs : List Char) : List Char :=
  (cs.reverse.dropWhile isLineEnd).reverse

/-- A place in a text: line and column count from one, the column in characters. -/
structure Place where
  line : Nat
  column : Nat
deriving DecidableEq, Repr

/-- The place behind a character that stands at `p`. -/
def Place.after (p : Place) (c : Char) : Place :=
  if c = '\n' then ⟨p.line + 1, 1⟩ else ⟨p.line, p.column + 1⟩

/-- The place that a byte position of a text has. -/
def placeOf (text : List Char) (byte : Nat) : Place :=
  (((splitBytes? byte text).map Prod.fst).getD text).foldl Place.after ⟨1, 1⟩

/-- The line of a text with the given number, without its line end. -/
def lineAt (text : List Char) (number : Nat) : List Char :=
  withoutLineEnd ((pieces text)[number - 1]?.getD [])

end Calculator
