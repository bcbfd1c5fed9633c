import Calculator.Text.Glyph

/-!
# Escaped characters

How the journal writes a single character so that it can be told from every other one
on a line of text: quotes and the backslash are marked with a backslash, four control
characters have a letter, and what has no glyph of its own is named by its code point.
-/

namespace Calculator

/-- The code point of a character, in lower-case hexadecimal between braces. -/
def codePointEscape (c : Char) : String :=
  "\\u\x7b" ++ String.ofList (Nat.toDigits 16 c.toNat) ++ "\x7d"

/-- A character as the journal writes it. -/
def escapeChar (c : Char) : String :=
  if c = '\x00' then "\\0"
  else if c = '\t' then "\\t"
  else if c = '\r' then "\\r"
  else if c = '\n' then "\\n"
  else if c = '\\' || c = '"' || c = '\'' then "\\" ++ c.toString
  else if hasGlyph c then c.toString
  else codePointEscape c

example : escapeChar 'x' = "x" := by decide +kernel
example : escapeChar '\'' = "\\'" := by decide +kernel
example : escapeChar '\x01' = "\\u\x7b1\x7d" := by decide +kernel

end Calculator
