import Calculator.Span

/-!
# What can be wrong with a line

A line fails in one of two ways: its tokens are no sequence of expressions, or one of its
numbers is malformed. The causes are values; `message` words them.
-/

namespace Calculator

/-- Why tokens are no sequence of expressions. -/
inductive ParseFault
  /-- An opening parenthesis has no partner. The place is that of the parenthesis. -/
  | unclosedGroup
  /-- The tokens end where a number or a parenthesis is due. -/
  | unexpectedEnd
  /-- Some other symbol stands where a number or a parenthesis is due. -/
  | expectedAtom (found : String)
deriving DecidableEq, Repr

/-- Why an expression has no value. -/
inductive ValueFault
  | invalidNumber (literal : String)
deriving DecidableEq, Repr

/-- What the user is told. -/
def ParseFault.message : ParseFault → String
  | unclosedGroup => "expected closing parenthesis"
  | unexpectedEnd => "expected a number or '(' but found end of input"
  | expectedAtom found => s!"expected a number or '(' but found '{found}'"

/-- What the user is told. -/
def ValueFault.message : ValueFault → String
  | invalidNumber literal => s!"invalid number '{literal}'"

/-- What is wrong with a line, and where. -/
inductive Fault
  | parse (fault : Located ParseFault)
  | value (fault : Located ValueFault)
deriving DecidableEq, Repr

namespace Fault

/-- The place that is to blame. -/
def span : Fault → Span
  | parse f => f.span
  | value f => f.span

/-- What the user is told. -/
def message : Fault → String
  | parse f => f.val.message
  | value f => f.val.message

end Fault

end Calculator
