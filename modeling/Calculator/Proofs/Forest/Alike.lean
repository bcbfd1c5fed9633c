import Calculator.Proofs.Expr.Alike
import Calculator.Proofs.Forest.Refusal

/-!
# Forests at different places

What begins with an expression that has been read in part goes on with that expression and then
with the forest behind it (`Growth.forest`). From growths that are alike, tokens with the same
symbols are read into forests that are related tree by tree, or fail for the same reason.
-/

namespace Calculator

/-- The expression that is being read, and the forest behind it. -/
def Growth.forest (last : Span) (g : Growth) (ts : List Token) :
    Except (Located ParseFault) Forest :=
  match g.run last ts with
  | (.error fault, _) => .error fault
  | (.ok e, rest) => (e :: ·) <$> (Feed.mk last rest).forest.1

theorem Feed.expr_of_run {last : Span} {ts rest : List Token} {outcome : Outcome}
    (h : Growth.run last {} ts = (outcome, rest)) :
    (Feed.mk last ts).expr = (outcome, ⟨last, rest⟩) := by
  simp only [Feed.expr, h]

/-- A forest of any tokens begins with an expression of which nothing has been read. -/
theorem Feed.forest_cons (last : Span) (t : Token) (ts : List Token) :
    (Feed.mk last (t :: ts)).forest.1 = Growth.forest last {} (t :: ts) := by
  cases hrun : Growth.run last {} (t :: ts) with
  | mk outcome rest =>
      have hexpr := expr_of_run hrun
      rw [Growth.forest, hrun]
      cases outcome with
      | error fault => rw [forest_of_fault (List.cons_ne_nil t ts) hexpr]
      | ok e => rw [forest_of_expr hexpr]

/-- What is left behind a forest is what is left behind its last expression. -/
theorem Feed.rest_forest_cons (last : Span) (t : Token) (ts : List Token) :
    (Feed.mk last (t :: ts)).forest.2.rest =
      match Growth.run last {} (t :: ts) with
      | (.error _, rest) => rest
      | (.ok _, rest) => (Feed.mk last rest).forest.2.rest := by
  cases hrun : Growth.run last {} (t :: ts) with
  | mk outcome rest =>
      have hexpr := expr_of_run hrun
      cases outcome with
      | error fault => rw [forest_of_fault (List.cons_ne_nil t ts) hexpr]
      | ok e => rw [forest_of_expr hexpr]

theorem Growth.Reads.forest_append {g h : Growth} {us : List Token} (hus : g.Reads us h)
    (last : Span) (vs : List Token) : g.forest last (us ++ vs) = h.forest last vs := by
  rw [forest, forest, hus.run_append]

variable {r : Expr → Expr → Prop}

theorem Agree.cons {d e : Expr} {x y : Except (Located ParseFault) Forest} (hde : r d e)
    (h : Agree (List.Forall₂ r) x y) :
    Agree (List.Forall₂ r) ((d :: ·) <$> x) ((e :: ·) <$> y) := by
  cases h with
  | ok hforest => exact .ok (.cons hde hforest)
  | error hfault => exact .error hfault

section

variable (hr : Expr.Congruence r)

include hr

/-- If the forests behind the expression are related, the whole is. -/
theorem Growth.Alike.agree_forest_of_rest {g h : Growth} (hg : g.Alike r h) {ts us : List Token}
    (hts : ts.map Located.val = us.map Located.val) (last last' : Span)
    (hrest : ∀ e, (g.run last ts).1 = .ok e →
      Agree (List.Forall₂ r) (Feed.mk last (g.run last ts).2).forest.1
        (Feed.mk last' (h.run last' us).2).forest.1) :
    Agree (List.Forall₂ r) (g.forest last ts) (h.forest last' us) := by
  obtain ⟨houtcome, -⟩ := hg.run hr hts last last'
  rw [forest, forest]
  generalize g.run last ts = a, h.run last' us = b at houtcome hrest
  obtain ⟨outcome, rest⟩ := a
  obtain ⟨outcome', rest'⟩ := b
  cases houtcome with
  | ok he => exact (hrest _ rfl).cons he
  | error hfault => exact .error hfault

/-- **Tokens with the same symbols are read alike**, wherever they stand, and reading stops at the
same one of them. -/
theorem Feed.alike_forest {ts us : List Token} (hts : ts.map Located.val = us.map Located.val)
    (last last' : Span) :
    Agree (List.Forall₂ r) (Feed.mk last ts).forest.1 (Feed.mk last' us).forest.1 ∧
      (Feed.mk last ts).forest.2.rest.map Located.val =
        (Feed.mk last' us).forest.2.rest.map Located.val := by
  -- every expression takes a token, so that fewer are left for the forest behind it
  induction hk : ts.length using Nat.strongRecOn generalizing ts us with
  | _ k ih =>
      cases ts with
      | nil =>
          cases List.map_eq_nil_iff.mp hts.symm
          rw [Feed.forest_of_empty, Feed.forest_of_empty]
          exact ⟨.ok .nil, rfl⟩
      | cons t ts =>
          obtain ⟨u, us, rfl, -, -⟩ := List.map_eq_cons_iff.mp hts.symm
          obtain ⟨houtcome, hrest⟩ := Growth.alike_empty.run hr hts last last'
          have hlength : ∀ e, (Growth.run last {} (t :: ts)).1 = .ok e →
              (Growth.run last {} (t :: ts)).2.length < k :=
            fun e he => hk ▸ Growth.length_run_lt he
          constructor
          · rw [Feed.forest_cons, Feed.forest_cons]
            exact Growth.alike_empty.agree_forest_of_rest hr hts last last' fun e he =>
              (ih _ (hlength e he) hrest rfl).1
          · rw [Feed.rest_forest_cons, Feed.rest_forest_cons]
            generalize Growth.run last {} (t :: ts) = a,
              Growth.run last' {} (u :: us) = b at houtcome hrest hlength
            obtain ⟨outcome, rest⟩ := a
            obtain ⟨outcome', rest'⟩ := b
            cases houtcome with
            | ok he => exact (ih _ (hlength _ rfl) hrest rfl).2
            | error hfault => exact hrest

theorem Feed.agree_forest {ts us : List Token} (hts : ts.map Located.val = us.map Located.val)
    (last last' : Span) :
    Agree (List.Forall₂ r) (Feed.mk last ts).forest.1 (Feed.mk last' us).forest.1 :=
  (Feed.alike_forest hr hts last last').1

/-- **What has been read is looked at only as far as it is alike.** -/
theorem Growth.Alike.agree_forest {g h : Growth} (hg : g.Alike r h) {ts us : List Token}
    (hts : ts.map Located.val = us.map Located.val) (last last' : Span) :
    Agree (List.Forall₂ r) (g.forest last ts) (h.forest last' us) :=
  hg.agree_forest_of_rest hr hts last last' fun _ _ =>
    Feed.agree_forest hr (hg.run hr hts last last').2 last last'

end

end Calculator
