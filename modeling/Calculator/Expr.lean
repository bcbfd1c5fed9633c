import Calculator.Fault
import Calculator.Number.Literal
import Calculator.Token

/-!
# Expressions

An expression is a number, a group in parentheses, or an operation on two expressions.
Every node has its place in the text. Expressions that stand side by side form a forest,
and the value of a forest is the product of theirs.
-/

namespace Calculator

/-- An expression with the places of its nodes and operators. -/
inductive Expr
  | number (span : Span) (literal : String)
  | group (span : Span) (inner : Expr)
  | binary (span : Span) (op : Located Op) (lhs rhs : Expr)
deriving DecidableEq, Repr

/-- Expressions that stand side by side, in order. -/
abbrev Forest := List Expr

namespace Expr

/-- The place of an expression. -/
def span : Expr → Span
  | number s _ => s
  | group s _ => s
  | binary s .. => s

/-- An operation on two expressions, spanning both. -/
def combine (lhs : Expr) (op : Located Op) (rhs : Expr) : Expr :=
  binary (lhs.span.join rhs.span) op lhs rhs

/-- An expression with every operator in front of its operands. -/
def polish : Expr → String
  | number _ literal => literal
  | group _ inner => "(group " ++ inner.polish ++ ")"
  | binary _ op lhs rhs =>
      "(" ++ op.val.char.toString ++ " " ++ lhs.polish ++ " " ++ rhs.polish ++ ")"

/-- The value of an expression. The left operand comes first: of two malformed numbers
the left one is to blame. -/
def value : Expr → Except (Located ValueFault) Float
  | number s literal =>
      match Number.valueOf? literal.toList with
      | some x => .ok x
      | none => .error ⟨.invalidNumber literal, s⟩
  | group _ inner => inner.value
  | binary _ op lhs rhs => do
      let x ← lhs.value
      let y ← rhs.value
      return op.val.apply x y

end Expr

namespace Forest

/-- The trees of a forest with every operator in front, on one line. -/
def polish (forest : Forest) : String := " ".intercalate (forest.map Expr.polish)

/-- Multiplies a number by the values of the trees, from left to right. -/
def productFrom (x : Float) (forest : Forest) : Except (Located ValueFault) Float :=
  forest.foldlM (fun acc e => return acc * (← e.value)) x

/-- The value of a forest: the product of the values of its trees. Where there is no tree,
there is no value. -/
def value : Forest → Except (Located ValueFault) (Option Float)
  | [] => .ok none
  | e :: es => some <$> productFrom 1.0 (e :: es)

end Forest

end Calculator
