import Calculator.Proofs.Forest.Formed
import Calculator.Token.Cursor
import Mathlib.Data.List.Basic

/-!
# How high the trees of a forest are

Operators of one kind bind to the left, and so every operator of a chain like `1 + 2 + 3` is one
step down to its left operand: no bound on the height of a tree can do with the nesting of the
parentheses alone (`height_not_bounded_by_nesting`). It takes the length of the longest chain as
well, and then there is a bound that is attained; the steps to left operands are the only ones that
chains add to (`forestOf_height_le`).
-/

namespace Calculator

namespace Expr

/-- The number of nodes on the longest way down an expression. -/
def height : Expr → Nat
  | number .. => 1
  | group _ inner => inner.height + 1
  | binary _ _ lhs rhs => max lhs.height rhs.height + 1

/-- The height, where the step to a left operand is not counted. -/
def rightHeight : Expr → Nat
  | number .. => 1
  | group _ inner => inner.rightHeight + 1
  | binary _ _ lhs rhs => max lhs.rightHeight (rhs.rightHeight + 1)

/-- The number of groups on the way down on which there are most. -/
def nesting : Expr → Nat
  | number .. => 0
  | group _ inner => inner.nesting + 1
  | binary _ _ lhs rhs => max lhs.nesting rhs.nesting

end Expr

/-- The largest number of parentheses that are open at one time, where `depth` already are. -/
def deepest (depth : Nat) : List Symbol → Nat
  | [] => depth
  | .opening :: vs => deepest (depth + 1) vs
  | .closing :: vs => max depth (deepest (depth - 1) vs)
  | .number _ :: vs => deepest depth vs
  | .op _ :: vs => deepest depth vs

/-- The largest number of operators that stand side by side in one pair of parentheses, or outside
all of them, where `count` have been read in the innermost open pair and `outside` in those around
it. -/
def longestChain (outside : List Nat) (count : Nat) : List Symbol → Nat
  | [] => outside.foldr max count
  | .opening :: vs => longestChain (count :: outside) 0 vs
  | .closing :: vs => max count (longestChain outside.tail (outside.headD 0) vs)
  | .number _ :: vs => longestChain outside count vs
  | .op _ :: vs => longestChain outside (count + 1) vs

/-- The largest number of parentheses that are open at one time. -/
def nestingOf (ts : List Token) : Nat := deepest 0 (ts.map Located.val)

/-- The length of the longest chain of operators. -/
def chainOf (ts : List Token) : Nat := longestChain [] 0 (ts.map Located.val)

theorem le_deepest (depth : Nat) (vs : List Symbol) : depth ≤ deepest depth vs := by
  induction vs generalizing depth with
  | nil => exact Nat.le_refl depth
  | cons v vs ih =>
      cases v with
      | opening => exact Nat.le_trans (Nat.le_succ depth) (ih (depth + 1))
      | closing => exact Nat.le_max_left ..
      | number => exact ih depth
      | op => exact ih depth

/-! ## What symbols add to both -/

/-- Symbols that open `d` parentheses at one time, and close what they open. -/
def Deepens (d : Nat) (w : List Symbol) : Prop :=
  ∀ depth vs, deepest depth (w ++ vs) = max (depth + d) (deepest depth vs)

/-- Symbols that bring `n` operators to the chain in which they stand, and have chains of their own
up to the length `inner`. -/
def Lengthens (n inner : Nat) (w : List Symbol) : Prop :=
  ∀ outside count vs,
    longestChain outside count (w ++ vs) = max inner (longestChain outside (count + n) vs)

namespace Deepens

theorem nil : Deepens 0 [] := fun depth vs => (Nat.max_eq_right (le_deepest depth vs)).symm

theorem number (literal : String) : Deepens 0 [.number literal] :=
  fun depth vs => (Nat.max_eq_right (le_deepest depth vs)).symm

theorem op (o : Op) : Deepens 0 [.op o] :=
  fun depth vs => (Nat.max_eq_right (le_deepest depth vs)).symm

theorem append {d d' : Nat} {w w' : List Symbol} (h : Deepens d w) (h' : Deepens d' w') :
    Deepens (max d d') (w ++ w') := by
  intro depth vs
  rw [List.append_assoc, h, h']
  omega

theorem group {d : Nat} {w : List Symbol} (h : Deepens d w) :
    Deepens (d + 1) (.opening :: (w ++ [.closing])) := by
  intro depth vs
  have := le_deepest depth vs
  rw [List.cons_append, List.append_assoc, List.singleton_append, deepest, h, deepest,
    Nat.add_sub_cancel]
  omega

theorem deepest_eq {d : Nat} {w : List Symbol} (h : Deepens d w) : deepest 0 w = d := by
  rw [← List.append_nil w, h, deepest, Nat.zero_add, Nat.max_zero]

end Deepens

namespace Lengthens

theorem nil : Lengthens 0 0 [] := fun _ _ _ => (Nat.zero_max _).symm

theorem number (literal : String) : Lengthens 0 0 [.number literal] :=
  fun _ _ _ => (Nat.zero_max _).symm

theorem op (o : Op) : Lengthens 1 0 [.op o] := fun _ _ _ => (Nat.zero_max _).symm

theorem append {n n' inner inner' : Nat} {w w' : List Symbol} (h : Lengthens n inner w)
    (h' : Lengthens n' inner' w') : Lengthens (n + n') (max inner inner') (w ++ w') := by
  intro outside count vs
  rw [List.append_assoc, h, h', Nat.max_assoc, Nat.add_assoc]

/-- A group hides the chain that it holds. -/
theorem group {n inner : Nat} {w : List Symbol} (h : Lengthens n inner w) :
    Lengthens 0 (max inner n) (.opening :: (w ++ [.closing])) := by
  intro outside count vs
  rw [List.cons_append, List.append_assoc, List.singleton_append, longestChain, h, longestChain,
    Nat.zero_add, Nat.max_assoc]
  rfl

theorem longestChain_eq {n inner : Nat} {w : List Symbol} (h : Lengthens n inner w) :
    longestChain [] 0 w = max inner n := by
  rw [← List.append_nil w, h, longestChain, Nat.zero_add]
  rfl

end Lengthens

/-! ## How high an operand is -/

/-- The largest number of nodes, steps to left operands not counted, that a way down an operand goes
through in front of the first group. -/
def Precedence.steps : Precedence → Nat
  | atom => 1
  | product => 2
  | sum => 3

namespace Built

variable {l : Precedence} {e : Expr} {us : List Token}

/-- As many parentheses are open at one time as groups lie in one another. -/
theorem deepens (h : Built l e us) : Deepens e.nesting (us.map Located.val) := by
  induction h with
  | number => exact .number _
  | group _ ih =>
      rw [List.map_cons, List.map_append]
      exact ih.group
  | @multiple s o c literal e us _ ih =>
      have hmultiple := (Deepens.number literal).append ih.group
      rw [List.map_cons, List.map_cons, List.map_append]
      exact hmultiple
  | factor _ ih => exact ih
  | term _ ih => exact ih
  | @product s o e f us vs _ _ _ ih₁ ih₂ | @sum s o e f us vs _ _ _ ih₁ ih₂ =>
      have hbinary := ih₁.append ((Deepens.op o).append ih₂)
      rw [Nat.zero_max] at hbinary
      rw [List.map_append, List.map_cons]
      exact hbinary

theorem nestingOf_eq (h : Built l e us) : nestingOf us = e.nesting := h.deepens.deepest_eq

/-- Each group costs two nodes, itself and a number in front, and the chain in it; outside the
groups there are the operators of the operand and one number. -/
theorem exists_lengthens (h : Built l e us) :
    ∃ n inner, Lengthens n inner (us.map Located.val) ∧
      ∀ c, inner ≤ c → e.height ≤ e.nesting * (c + 2) + n + 1 := by
  induction h with
  | number => exact ⟨0, 0, .number _, fun c _ => by simp [Expr.height]⟩
  | group _ ih =>
      obtain ⟨n, inner, hchain, hheight⟩ := ih
      refine ⟨0, max inner n, ?_, fun c hc => ?_⟩
      · rw [List.map_cons, List.map_append]
        exact hchain.group
      · have := hheight c (by omega)
        rw [Expr.height, Expr.nesting, Nat.succ_mul]
        omega
  | @multiple s o c literal e us _ ih =>
      obtain ⟨n, inner, hchain, hheight⟩ := ih
      refine ⟨0 + 0, max 0 (max inner n), ?_, fun c hc => ?_⟩
      · rw [List.map_cons, List.map_cons, List.map_append]
        exact (Lengthens.number literal).append hchain.group
      · have := hheight c (by omega)
        simp only [Expr.combine, Expr.height, Expr.nesting, Nat.zero_max, Nat.succ_mul]
        omega
  | factor _ ih => exact ih
  | term _ ih => exact ih
  | @product s o e f us vs _ _ _ ih₁ ih₂ | @sum s o e f us vs _ _ _ ih₁ ih₂ =>
      obtain ⟨n₁, inner₁, hchain₁, hheight₁⟩ := ih₁
      obtain ⟨n₂, inner₂, hchain₂, hheight₂⟩ := ih₂
      refine ⟨n₁ + (1 + n₂), max inner₁ (max 0 inner₂), ?_, fun c hc => ?_⟩
      · rw [List.map_append, List.map_cons]
        exact hchain₁.append ((Lengthens.op o).append hchain₂)
      · have h₁ := hheight₁ c (by omega)
        have h₂ := hheight₂ c (by omega)
        have hle₁ := Nat.mul_le_mul_right (c + 2) (Nat.le_max_left e.nesting f.nesting)
        have hle₂ := Nat.mul_le_mul_right (c + 2) (Nat.le_max_right e.nesting f.nesting)
        rw [Expr.combine, Expr.height, Expr.nesting]
        omega

/-- **Without the steps to left operands, nesting alone bounds the height** of an operand. -/
theorem rightHeight_le (h : Built l e us) : e.rightHeight ≤ 4 * e.nesting + l.steps := by
  induction h with
  | number => exact Nat.le_refl 1
  | group _ ih | multiple _ ih | factor _ ih | term _ ih =>
      simp only [Expr.combine, Expr.rightHeight, Expr.nesting, Precedence.steps] at ih ⊢
      omega
  | product _ _ _ ih₁ ih₂ | sum _ _ _ ih₁ ih₂ =>
      simp only [Expr.combine, Expr.rightHeight, Expr.nesting, Precedence.steps] at ih₁ ih₂ ⊢
      omega

end Built

/-- The trees of a forest share its parentheses and its outermost chain. -/
theorem Formed.exists_lengthens {f : Forest} {ts : List Token} (h : Formed f ts) :
    ∃ d n inner, Deepens d (ts.map Located.val) ∧ Lengthens n inner (ts.map Located.val) ∧
      ∀ e ∈ f, e.nesting ≤ d ∧ e.rightHeight ≤ 4 * e.nesting + 3 ∧
        ∀ c, inner ≤ c → e.height ≤ e.nesting * (c + 2) + n + 1 := by
  induction h with
  | nil => exact ⟨0, 0, 0, .nil, .nil, nofun⟩
  | @cons e f us vs he _ _ ih =>
      obtain ⟨n₁, inner₁, hchain₁, hheight₁⟩ := he.exists_lengthens
      obtain ⟨d, n₂, inner₂, hdeepens, hchain₂, htrees⟩ := ih
      rw [List.map_append]
      refine ⟨max e.nesting d, n₁ + n₂, max inner₁ inner₂, he.deepens.append hdeepens,
        hchain₁.append hchain₂, fun t ht => ?_⟩
      rcases List.mem_cons.mp ht with rfl | ht
      · refine ⟨Nat.le_max_left .., he.rightHeight_le, fun c hc => ?_⟩
        have := hheight₁ c (by omega)
        omega
      · obtain ⟨hnesting, hright, hheight₂⟩ := htrees t ht
        refine ⟨by omega, hright, fun c hc => ?_⟩
        have := hheight₂ c (by omega)
        omega

/-! ## Trees that are as high as they can be -/

/-- The tokens of `c` further operands, a sum of which the first is whatever stands in front. -/
def furtherTerms (c : Nat) : List Token :=
  (List.replicate c [⟨.op .add, default⟩, ⟨.number "1", default⟩]).flatten

/-- A sum in a group, with a number in front of it, as the first operand of a sum, and so on: `d`
groups in all, and `c` operators in each and outside. -/
def steepTokens (c : Nat) : Nat → List Token
  | 0 => ⟨.number "1", default⟩ :: furtherTerms c
  | d + 1 =>
      ⟨.number "1", default⟩ :: ⟨.opening, default⟩ ::
        (steepTokens c d ++ [⟨.closing, default⟩]) ++ furtherTerms c

theorem furtherTerms_succ (c : Nat) :
    furtherTerms (c + 1) = furtherTerms c ++ [⟨.op .add, default⟩, ⟨.number "1", default⟩] := by
  rw [furtherTerms, List.replicate_succ', List.flatten_append, List.flatten_singleton]
  rfl

theorem lengthens_furtherTerms (c : Nat) :
    Lengthens c 0 ((furtherTerms c).map Located.val) := by
  induction c with
  | zero => exact .nil
  | succ c ih =>
      rw [furtherTerms_succ, List.map_append]
      exact ih.append ((Lengthens.op .add).append (.number "1"))

/-- Each further operand makes a sum higher by one. -/
theorem Built.exists_furtherTerms {e : Expr} {us : List Token} (h : Built .sum e us) (c : Nat) :
    ∃ f, Built .sum f (us ++ furtherTerms c) ∧ f.nesting = e.nesting ∧
      f.height = e.height + c := by
  have hpos : 1 ≤ e.height := by cases e <;> simp [Expr.height]
  induction c with
  | zero =>
      refine ⟨e, ?_, rfl, rfl⟩
      rw [show furtherTerms 0 = [] from rfl, List.append_nil]
      exact h
  | succ c ih =>
      obtain ⟨f, hf, hnesting, hheight⟩ := ih
      have hone : Built .product (.number default "1") [⟨.number "1", default⟩] := .factor .number
      have hsum : Op.add.precedence = .sum := rfl
      rw [furtherTerms_succ, ← List.append_assoc]
      refine ⟨_, .sum (s := default) hf hsum hone, ?_, ?_⟩
      · rw [Expr.combine, Expr.nesting, Expr.nesting, Nat.max_zero, hnesting]
      · rw [Expr.combine, Expr.height, Expr.height]
        omega

theorem exists_built_steepTokens (c d : Nat) :
    ∃ e inner, Built .sum e (steepTokens c d) ∧
      Lengthens c inner ((steepTokens c d).map Located.val) ∧ inner ≤ c ∧ e.nesting = d ∧
      e.height = d * (c + 2) + c + 1 := by
  induction d with
  | zero =>
      have hone : Built .atom (.number default "1") [⟨.number "1", default⟩] := .number
      obtain ⟨f, hf, hnesting, hheight⟩ := hone.toSum.exists_furtherTerms c
      refine ⟨f, 0, hf, ?_, Nat.zero_le c, hnesting, ?_⟩
      · have hchain := (Lengthens.number "1").append (lengthens_furtherTerms c)
        rw [Nat.zero_add] at hchain
        exact hchain
      · rw [hheight, Expr.height, Nat.zero_mul]
        omega
  | succ d ih =>
      obtain ⟨e, inner, he, hchain, hinner, hnesting, hheight⟩ := ih
      have hmultiple : Built .atom
          ((Expr.number default "1").combine ⟨.mul, .emptyAt (default : Span).lo⟩
            (.group (Span.join default default) e))
          (⟨.number "1", default⟩ :: ⟨.opening, default⟩ ::
            (steepTokens c d ++ [⟨.closing, default⟩])) := .multiple he
      obtain ⟨f, hf, hnesting', hheight'⟩ := hmultiple.toSum.exists_furtherTerms c
      refine ⟨f, max inner c, hf, ?_, Nat.max_le.mpr ⟨hinner, Nat.le_refl c⟩, ?_, ?_⟩
      · have hwhole :=
          ((Lengthens.number "1").append hchain.group).append (lengthens_furtherTerms c)
        rw [Nat.zero_max, Nat.max_zero, Nat.zero_add] at hwhole
        rw [steepTokens, List.map_append, List.map_cons, List.map_cons, List.map_append]
        exact hwhole
      · rw [hnesting', Expr.combine, Expr.nesting, Expr.nesting, Expr.nesting, Nat.zero_max,
          hnesting]
      · rw [hheight', Expr.combine, Expr.height, Expr.height, Expr.height, hheight, Nat.succ_mul]
        omega

/-- For any nesting and any length of chains there is a tree that is as high as both allow. -/
theorem exists_steep (d c : Nat) :
    ∃ us e, forestOf us = .ok [e] ∧ nestingOf us = d ∧ chainOf us = c ∧
      e.height = d * (c + 2) + c + 1 := by
  obtain ⟨e, inner, he, hchain, hinner, hnesting, hheight⟩ := exists_built_steepTokens c d
  refine ⟨steepTokens c d, e, forestOf_eq_ok_iff.mpr (.of_built he), ?_, ?_, hheight⟩
  · rw [he.nestingOf_eq, hnesting]
  · rw [chainOf, hchain.longestChain_eq, Nat.max_eq_right hinner]

/-- **Nesting alone does not bound the height**: a chain of operators makes a tree as high as one
likes, without any parentheses. -/
theorem height_not_bounded_by_nesting :
    ¬ ∃ B : Nat → Nat, ∀ (ts : List Token) (f : Forest), forestOf ts = .ok f →
      ∀ e ∈ f, e.height ≤ B (nestingOf ts) := by
  rintro ⟨B, hB⟩
  obtain ⟨us, e, hread, hnesting, -, hheight⟩ := exists_steep 0 (B 0)
  have hle := hB us [e] hread e (List.mem_singleton_self e)
  rw [hnesting, hheight] at hle
  omega

/-- **Nesting and chains bound the height of a tree.** With `d` parentheses open at one time, and
chains of at most `c` operators, a tree has no more than `d * (c + 2) + c + 1` nodes on a way down,
and for all `d` and `c` some tree has as many. The chains make themselves felt in left operands
only: if the steps to these are not counted, no more than `4 * d + 3` nodes are on a way down. -/
theorem forestOf_height_le :
    (∀ (ts : List Token) (f : Forest), forestOf ts = .ok f → ∀ e ∈ f,
      e.height ≤ nestingOf ts * (chainOf ts + 2) + chainOf ts + 1 ∧
        e.rightHeight ≤ 4 * nestingOf ts + 3) ∧
    ∀ d c, ∃ us e, forestOf us = .ok [e] ∧ nestingOf us = d ∧ chainOf us = c ∧
      e.height = d * (c + 2) + c + 1 := by
  refine ⟨fun ts f hread e he => ?_, exists_steep⟩
  obtain ⟨d, n, inner, hdeepens, hchain, htrees⟩ :=
    (forestOf_eq_ok_iff.mp hread).exists_lengthens
  obtain ⟨hle, hright, hheight⟩ := htrees e he
  have hdeepest : nestingOf ts = d := hdeepens.deepest_eq
  have hlongest : chainOf ts = max inner n := hchain.longestChain_eq
  have hbound := hheight (chainOf ts) (by omega)
  have hgroups := Nat.mul_le_mul_right (chainOf ts + 2) hle
  rw [hdeepest]
  omega

/-- In `5(1-2-3) 6`, the step from the second difference to the first leads to a left operand. -/
theorem forestOf_height_le_chain_in_group :
    let ts := tokensOf (itemsOf "5(1-2-3) 6")
    let first : Expr := .binary (.between 2 5) ⟨.sub, .between 3 4⟩ (.number (.between 2 3) "1")
      (.number (.between 4 5) "2")
    let second : Expr :=
      .binary (.between 2 7) ⟨.sub, .between 5 6⟩ first (.number (.between 6 7) "3")
    let product : Expr := .binary (.between 0 8) ⟨.mul, .emptyAt 1⟩ (.number (.between 0 1) "5")
      (.group (.between 1 8) second)
    forestOf ts = .ok [product, .number (.between 9 10) "6"] ∧
      product.height = 5 ∧ product.rightHeight = 4 ∧ nestingOf ts = 1 ∧ chainOf ts = 2 ∧
      product.height ≤ nestingOf ts * (chainOf ts + 2) + chainOf ts + 1 ∧
      product.rightHeight ≤ 4 * nestingOf ts + 3 := by
  intro ts first second product
  have h : forestOf ts = .ok [product, .number (.between 9 10) "6"] := by decide +kernel
  have hbounds := forestOf_height_le.1 ts _ h product (List.mem_cons_self ..)
  exact ⟨h, by decide, by decide, by decide +kernel, by decide +kernel, hbounds⟩

end Calculator
