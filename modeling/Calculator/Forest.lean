import Calculator.Expr.Growth
import Calculator.Journal

/-!
# Forests from tokens

A feed hands out tokens to one expression after the other. An expression that fails
leaves the feed where it stopped, in front of the token it could not use: reading can go
on from there. `forest` reads expressions until no token is left or one fails.
-/

namespace Calculator

/-- Tokens that are being read into expressions. -/
structure Feed where
  /-- The empty place behind the last of all tokens, those already read included. -/
  last : Span
  /-- The tokens that have not been read. -/
  rest : List Token
deriving DecidableEq, Repr

namespace Feed

/-- Where a list of tokens ends. -/
def endOf (tokens : List Token) : Span :=
  match tokens.getLast? with
  | none => default
  | some t => .emptyAt t.span.hi

/-- A feed with all its tokens. -/
def ofTokens (tokens : List Token) : Feed := ⟨endOf tokens, tokens⟩

/-- Reads one expression. -/
def expr (f : Feed) : Outcome × Feed :=
  let (outcome, rest) := Growth.run f.last {} f.rest
  (outcome, ⟨f.last, rest⟩)

/-- Reads one expression, if any token is left. -/
def next? (f : Feed) : Option (Outcome × Feed) :=
  if f.rest.isEmpty then none else some f.expr

/-- An expression takes tokens from the feed. -/
theorem length_rest_lt_of_expr {f g : Feed} {e : Expr} (h : f.expr = (.ok e, g)) :
    g.rest.length < f.rest.length := by
  simp only [expr, Prod.mk.injEq] at h
  rw [← h.2]
  exact Growth.length_run_lt h.1

/-- Reads expressions up to the end of the tokens or the first failure. -/
def forest (f : Feed) : Except (Located ParseFault) Forest × Feed :=
  if f.rest.isEmpty then
    (.ok [], f)
  else
    match _h : f.expr with
    | (.error fault, g) => (.error fault, g)
    | (.ok e, g) =>
        let (trees, after) := g.forest
        ((e :: ·) <$> trees, after)
termination_by f.rest.length
decreasing_by exact length_rest_lt_of_expr _h

/-- Reads a forest. Success is recorded. -/
def recordForest (f : Feed) : Logged (Except (Located ParseFault) Forest × Feed) :=
  let r := f.forest
  ⟨r, match r.1 with
    | .ok trees => [.parsedForest trees.length]
    | .error _ => []⟩

end Feed

/-- The forest that a list of tokens spells. -/
def forestOf (tokens : List Token) : Except (Located ParseFault) Forest :=
  (Feed.ofTokens tokens).forest.1

/-- Reads the forest that a list of tokens spells. Success is recorded. -/
def recordForest (tokens : List Token) : Logged (Except (Located ParseFault) Forest) :=
  Prod.fst <$> (Feed.ofTokens tokens).recordForest

@[simp] theorem value_recordForest (tokens : List Token) :
    (recordForest tokens).value = forestOf tokens := rfl

/-- Evaluates a forest. A value is recorded. -/
def Forest.recordValue (forest : Forest) : Logged (Except (Located ValueFault) (Option Float)) :=
  ⟨forest.value, match forest.value with
    | .ok (some x) => [.evaluatedForest forest.length x]
    | _ => []⟩

@[simp] theorem value_recordValue (forest : Forest) : forest.recordValue.value = forest.value := rfl

end Calculator
