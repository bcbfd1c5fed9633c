import Calculator.Token

/-!
# The grammar of forests

Which sequences of symbols are forests, said without reading them:

    forest         := expression*
    expression     := additive
    additive       := multiplicative (('+' | '-') multiplicative)*
    multiplicative := atom (('*' | '/') atom)*
    atom           := '(' expression ')'
                    | NUMBER ['(' expression ')']

`Derives` is this grammar as it stands, with one constructor for each alternative. The
grammar is ambiguous: a number and a group behind it are one atom, or the end of one
expression and the beginning of the next.
-/

namespace Calculator

/-- What the grammar has a rule for. -/
inductive Category
  | forest
  | expression
  | additive
  | multiplicative
  | atom
deriving DecidableEq

/-- Operands, each with its operator in front. -/
def chained (vs : List (Op × List Symbol)) : List Symbol :=
  vs.flatMap fun v => .op v.1 :: v.2

/-- The sequences of symbols that the grammar derives from a category. -/
inductive Derives : Category → List Symbol → Prop
  | forest {us : List (List Symbol)} (hus : ∀ u ∈ us, Derives .expression u) :
      Derives .forest us.flatten
  | expression {u : List Symbol} (hu : Derives .additive u) : Derives .expression u
  | additive {u : List Symbol} {vs : List (Op × List Symbol)} (hu : Derives .multiplicative u)
      (hops : ∀ v ∈ vs, v.1.isAdditive = true) (hvs : ∀ v ∈ vs, Derives .multiplicative v.2) :
      Derives .additive (u ++ chained vs)
  | multiplicative {u : List Symbol} {vs : List (Op × List Symbol)} (hu : Derives .atom u)
      (hops : ∀ v ∈ vs, v.1.isMultiplicative = true) (hvs : ∀ v ∈ vs, Derives .atom v.2) :
      Derives .multiplicative (u ++ chained vs)
  | group {u : List Symbol} (hu : Derives .expression u) :
      Derives .atom (.opening :: (u ++ [.closing]))
  | number {literal : String} : Derives .atom [.number literal]
  | multiple {literal : String} {u : List Symbol} (hu : Derives .expression u) :
      Derives .atom (.number literal :: .opening :: (u ++ [.closing]))

/-- Whether an expression can begin with a symbol. -/
def Symbol.begins : Symbol → Bool
  | number _ | opening => true
  | op _ | closing => false

@[simp] theorem chained_nil : chained [] = [] := rfl

@[simp] theorem chained_cons (v : Op × List Symbol) (vs : List (Op × List Symbol)) :
    chained (v :: vs) = .op v.1 :: (v.2 ++ chained vs) := by
  simp [chained]

@[simp] theorem chained_append (vs ws : List (Op × List Symbol)) :
    chained (vs ++ ws) = chained vs ++ chained ws := List.flatMap_append

namespace Derives

/-- One more term can follow a sum. -/
theorem additive_snoc {u v : List Symbol} {o : Op} (hu : Derives .additive u)
    (ho : o.isAdditive = true) (hv : Derives .multiplicative v) :
    Derives .additive (u ++ .op o :: v) := by
  cases hu with
  | @additive u ws hfirst hops hws =>
      have h : Derives .additive (u ++ chained (ws ++ [(o, v)])) :=
        .additive hfirst (List.forall_mem_append.2 ⟨hops, List.forall_mem_singleton.2 ho⟩)
          (List.forall_mem_append.2 ⟨hws, List.forall_mem_singleton.2 hv⟩)
      simpa using h

/-- One more factor can follow a product. -/
theorem multiplicative_snoc {u v : List Symbol} {o : Op} (hu : Derives .multiplicative u)
    (ho : o.isMultiplicative = true) (hv : Derives .atom v) :
    Derives .multiplicative (u ++ .op o :: v) := by
  cases hu with
  | @multiplicative u ws hfirst hops hws =>
      have h : Derives .multiplicative (u ++ chained (ws ++ [(o, v)])) :=
        .multiplicative hfirst (List.forall_mem_append.2 ⟨hops, List.forall_mem_singleton.2 ho⟩)
          (List.forall_mem_append.2 ⟨hws, List.forall_mem_singleton.2 hv⟩)
      simpa using h

theorem multiplicative_of_atom {u : List Symbol} (hu : Derives .atom u) :
    Derives .multiplicative u := by
  have h : Derives .multiplicative (u ++ chained []) := .multiplicative hu (by simp) (by simp)
  simpa using h

theorem additive_of_multiplicative {u : List Symbol} (hu : Derives .multiplicative u) :
    Derives .additive u := by
  have h : Derives .additive (u ++ chained []) := .additive hu (by simp) (by simp)
  simpa using h

theorem forest_nil : Derives .forest [] := .forest (List.forall_mem_nil _)

/-- One more expression can stand in front of a forest. -/
theorem forest_cons {u v : List Symbol} (hu : Derives .expression u) (hv : Derives .forest v) :
    Derives .forest (u ++ v) := by
  cases hv with
  | @forest vs hvs =>
      exact .forest (List.forall_mem_cons.2 ⟨hu, hvs⟩)

/-- All but a forest begins with a number or an opening parenthesis. -/
theorem exists_begins {c : Category} {u : List Symbol} (h : Derives c u) (hc : c ≠ .forest) :
    ∃ s v, u = s :: v ∧ s.begins = true := by
  induction h with
  | forest => exact absurd rfl hc
  | expression _ ih => exact ih (by decide)
  | additive _ _ _ ih _ =>
      obtain ⟨s, v, rfl, hs⟩ := ih (by decide)
      exact ⟨s, _, rfl, hs⟩
  | multiplicative _ _ _ ih _ =>
      obtain ⟨s, v, rfl, hs⟩ := ih (by decide)
      exact ⟨s, _, rfl, hs⟩
  | group => exact ⟨_, _, rfl, rfl⟩
  | number => exact ⟨_, _, rfl, rfl⟩
  | multiple => exact ⟨_, _, rfl, rfl⟩

end Derives

end Calculator
