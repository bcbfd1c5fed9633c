import Calculator.Expr

/-!
# How an expression grows from tokens

An expression is read from left to right, one token at a time. What has been read so far
is a `Growth`: the operand just completed, if any, the operators still waiting for their
right operand, and the parentheses still open. `step` says what the next token does to it.

Products bind before sums, and operators of one kind bind to the left: a product is formed
as soon as its right operand is complete, a sum as soon as an additive operator or the end
follows. Directly behind a number, a parenthesis multiplies: `2(3)` reads as `2 * (3)`,
and binds before every operator.

An expression ends at the first token that cannot belong to it. If parentheses are still
open there, the innermost one is to blame.
-/

namespace Calculator

/-- A left operand and its operator, waiting for the right operand. -/
abbrev Waiting := Option (Expr × Located Op)

/-- The right operand has come. -/
def Waiting.complete : Waiting → Expr → Expr
  | none, e => e
  | some (lhs, op), e => lhs.combine op e

@[simp] theorem Waiting.complete_none (e : Expr) : Waiting.complete none e = e := rfl

@[simp] theorem Waiting.complete_some (lhs e : Expr) (op : Located Op) :
    Waiting.complete (some (lhs, op)) e = lhs.combine op e := rfl

/-- The operators that wait between two parentheses: at most one sum, and behind it at
most one product. -/
structure Pending where
  sum : Waiting := none
  product : Waiting := none

namespace Pending

/-- The operand of a product has come. -/
def factor (p : Pending) (e : Expr) : Expr := Waiting.complete p.product e

/-- The operand of a sum has come. -/
def total (p : Pending) (e : Expr) : Expr := Waiting.complete p.sum (p.factor e)

/-- What waits when an operator follows a complete operand. -/
def push (p : Pending) (e : Expr) (op : Located Op) : Pending :=
  if op.val.isAdditive then
    { sum := some (p.total e, op) }
  else
    { sum := p.sum, product := some (p.factor e, op) }

theorem push_of_additive {p : Pending} {e : Expr} {op : Located Op}
    (h : op.val.isAdditive = true) : p.push e op = { sum := some (p.total e, op) } :=
  if_pos h

theorem push_of_multiplicative {p : Pending} {e : Expr} {op : Located Op}
    (h : op.val.isMultiplicative = true) :
    p.push e op = { sum := p.sum, product := some (p.factor e, op) } :=
  if_neg (by simpa [Op.isMultiplicative] using h)

end Pending

/-- An open parenthesis: its place, the number that stands directly before it, and what
waits outside. -/
structure Opening where
  span : Span
  multiplier : Option Expr
  outside : Pending

/-- The parenthesis is closed. The operator of an implicit product has an empty place in
front of the parenthesis. -/
def Opening.close (o : Opening) (inner : Expr) (closing : Span) : Expr :=
  let group := Expr.group (o.span.join closing) inner
  match o.multiplier with
  | none => group
  | some number => number.combine ⟨.mul, .emptyAt o.span.lo⟩ group

/-- What has been read of an expression. -/
structure Growth where
  /-- The operand that is complete; none where one is due. -/
  operand : Option Expr := none
  /-- What waits inside the innermost open parenthesis. -/
  pending : Pending := {}
  /-- The open parentheses, innermost first. -/
  openings : List Opening := []

/-- What reading an expression comes to. -/
abbrev Outcome := Except (Located ParseFault) Expr

/-- What a token does to an expression that is being read. -/
inductive Step
  /-- The token belongs to the expression. -/
  | grow (g : Growth)
  /-- The token does not belong to it. -/
  | stop (outcome : Outcome)

namespace Growth

/-- A parenthesis is opened. -/
def enter (g : Growth) (span : Span) (multiplier : Option Expr) : Growth where
  openings := ⟨span, multiplier, g.pending⟩ :: g.openings

/-- The expression ends behind the operand `e`. -/
def finish (g : Growth) (e : Expr) : Outcome :=
  match g.openings with
  | [] => .ok (g.pending.total e)
  | o :: _ => .error ⟨.unclosedGroup, o.span⟩

/-- A token where an operand is due. -/
def stepOperand (g : Growth) (t : Token) : Step :=
  match t.val with
  | .opening => .grow (g.enter t.span none)
  | .number literal => .grow { g with operand := some (.number t.span literal) }
  | other => .stop (.error ⟨.expectedAtom other.text, t.span⟩)

/-- A token behind the operand `e`. -/
def stepBehind (g : Growth) (e : Expr) (t : Token) : Step :=
  match t.val with
  | .op o => .grow { g with operand := none, pending := g.pending.push e ⟨o, t.span⟩ }
  | .number _ => .stop (g.finish e)
  | .opening =>
      match e with
      | .number .. => .grow (g.enter t.span (some e))
      | _ => .stop (g.finish e)
  | .closing =>
      match g.openings with
      | [] => .stop (g.finish e)
      | o :: openings =>
          .grow {
            operand := some (o.close (g.pending.total e) t.span)
            pending := o.outside
            openings }

/-- What a token does to an expression that is being read. -/
def step (g : Growth) (t : Token) : Step :=
  match g.operand with
  | none => g.stepOperand t
  | some e => g.stepBehind e t

/-- What an expression comes to when no token follows. The end is at `last`. -/
def atEnd (g : Growth) (last : Span) : Outcome :=
  match g.operand with
  | none => .error ⟨.unexpectedEnd, last⟩
  | some e => g.finish e

/-- Reads on to the end of the expression, and returns the tokens that are left. -/
def run (last : Span) (g : Growth) : List Token → Outcome × List Token
  | [] => (g.atEnd last, [])
  | t :: ts =>
      match g.step t with
      | .grow h => h.run last ts
      | .stop outcome => (outcome, t :: ts)

/-- Reading never adds tokens. -/
theorem length_run_le (last : Span) (g : Growth) (ts : List Token) :
    (g.run last ts).2.length ≤ ts.length := by
  induction ts generalizing g with
  | nil => simp [run]
  | cons t ts ih =>
      simp only [run]
      split
      · exact Nat.le_succ_of_le (ih _)
      · exact Nat.le_refl _

/-- An expression that is read to its end takes at least one token. -/
theorem length_run_lt {last : Span} {ts : List Token} {e : Expr}
    (h : (run last {} ts).1 = .ok e) : (run last {} ts).2.length < ts.length := by
  cases ts with
  | nil => simp [run, atEnd] at h
  | cons t ts =>
      simp only [run, step] at h ⊢
      split at h
      · exact Nat.lt_succ_of_le (length_run_le _ _ _)
      · rename_i hstep
        simp only [stepOperand] at hstep
        split at hstep <;> simp_all

end Growth

end Calculator
