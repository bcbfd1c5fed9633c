/-!
# Blank characters

Two sets of blanks are in use. Between two tokens only `isSpace` is passed over in
silence; whether a whole line counts as empty, and what a keypad ignores, goes by the
larger set `isBlank`, the Unicode property White_Space.
-/

namespace Calculator

/-- Space, tab, line feed, form feed and carriage return. -/
def isSpace (c : Char) : Bool :=
  c == ' ' || c == '\t' || c == '\n' || c == '\x0c' || c == '\r'

/-- The Unicode property White_Space: 25 characters. -/
def isBlank (c : Char) : Bool :=
  let n := c.toNat
  (0x09 ≤ n && n ≤ 0x0D) || n == 0x20 || n == 0x85 || n == 0xA0 || n == 0x1680
    || (0x2000 ≤ n && n ≤ 0x200A) || n == 0x2028 || n == 0x2029 || n == 0x202F
    || n == 0x205F || n == 0x3000

/-- What separates tokens is blank. -/
theorem isBlank_of_isSpace {c : Char} (h : isSpace c = true) : isBlank c = true := by
  simp only [isSpace, Bool.or_eq_true, beq_iff_eq] at h
  rcases h with (((rfl | rfl) | rfl) | rfl) | rfl <;> rfl

example : isBlank '\x0b' = true ∧ isSpace '\x0b' = false := by decide
example : isBlank '\u3000' = true ∧ isBlank '\u200b' = false := by decide

end Calculator
