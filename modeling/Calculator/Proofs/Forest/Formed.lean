import Calculator.Forest
import Calculator.Proofs.Expr.Reading

/-!
# Which tokens a forest is formed from

A forest takes its tokens tree by tree, and where one tree ends the next token must not
go on with it. `forestOf_eq_ok_iff`: these are exactly the forests that are read, so a list
of tokens has at most one.
-/

namespace Calculator

/-- The forest that tokens make. -/
inductive Formed : Forest → List Token → Prop
  | nil : Formed [] []
  | cons {e : Expr} {f : Forest} {us vs : List Token} (he : Built .sum e us)
      (hparted : Parted (us.map Located.val) (vs.map Located.val)) (hf : Formed f vs) :
      Formed (e :: f) (us ++ vs)

namespace Feed

theorem expr_eq_ok_iff {f g : Feed} {e : Expr} :
    f.expr = (.ok e, g) ↔ ∃ us, f.rest = us ++ g.rest ∧ g.last = f.last ∧ Built .sum e us ∧
      Parted (us.map Located.val) (g.rest.map Located.val) := by
  obtain ⟨last, ts⟩ := f
  obtain ⟨last', rest⟩ := g
  constructor
  · intro h
    simp only [expr, Prod.mk.injEq, Feed.mk.injEq] at h
    obtain ⟨houtcome, rfl, hrest⟩ := h
    obtain ⟨us, hts, he, hparted⟩ := Growth.run_eq_ok_iff.1 (Prod.ext houtcome hrest)
    exact ⟨us, hts, rfl, he, hparted⟩
  · intro h
    obtain ⟨us, hts, hlast, he, hparted⟩ := h
    cases hlast
    have hrun : Growth.run last {} ts = (.ok e, rest) :=
      Growth.run_eq_ok_iff.2 ⟨us, hts, he, hparted⟩
    simp only [expr, hrun]

theorem forest_of_empty {last : Span} : forest ⟨last, []⟩ = (.ok [], ⟨last, []⟩) := by
  rw [forest]
  rfl

/-- A feed whose first expression is read goes on with the others. -/
theorem forest_of_expr {f g : Feed} {e : Expr} (h : f.expr = (.ok e, g)) :
    f.forest = ((e :: ·) <$> g.forest.1, g.forest.2) := by
  have hrest : f.rest.isEmpty = false := by
    have := length_rest_lt_of_expr h
    cases hr : f.rest with
    | nil => simp [hr] at this
    | cons => rfl
  rw [forest, if_neg (by simp [hrest])]
  split
  · rename_i h'
    rw [h] at h'
    cases h'
  · rename_i h'
    rw [h] at h'
    cases h'
    rfl

/-- **Reading a forest.** The forests that are read are the forests that the tokens make. -/
theorem forest_eq_ok_iff {f : Feed} {trees : Forest} :
    f.forest.1 = .ok trees ↔ Formed trees f.rest := by
  constructor
  · intro h
    fun_induction forest f generalizing trees with
    | case1 f hrest =>
        cases h
        rw [List.isEmpty_iff.1 hrest]
        exact .nil
    | case2 f _ fault g he => cases h
    | case3 f _ e g he read after hg ih =>
        rw [hg] at ih
        cases read with
        | error fault => cases h
        | ok es =>
            cases h
            obtain ⟨us, hus, -, hbuilt, hparted⟩ := expr_eq_ok_iff.1 he
            rw [hus]
            exact .cons hbuilt hparted (ih rfl)
  · intro h
    obtain ⟨last, ts⟩ := f
    simp only at h
    induction h with
    | nil => rw [forest_of_empty]
    | @cons e trees us vs he hparted _ ih =>
        have hexpr : (⟨last, us ++ vs⟩ : Feed).expr = (.ok e, ⟨last, vs⟩) :=
          expr_eq_ok_iff.2 ⟨us, rfl, rfl, he, hparted⟩
        rw [forest_of_expr hexpr, ih]
        rfl

end Feed

theorem forestOf_eq_ok_iff {tokens : List Token} {trees : Forest} :
    forestOf tokens = .ok trees ↔ Formed trees tokens := Feed.forest_eq_ok_iff

/-- The tokens of an operand form a forest of one tree. -/
theorem Formed.of_built {l : Precedence} {e : Expr} {us : List Token} (h : Built l e us) :
    Formed [e] us := by
  have hforest := Formed.cons h.toSum (parted_nil _) .nil
  rwa [List.append_nil] at hforest

/-- Tokens that form a forest of one tree make that tree. -/
theorem Built.of_forestOf {ts : List Token} {tree : Expr} (h : forestOf ts = .ok [tree]) :
    Built .sum tree ts := by
  cases forestOf_eq_ok_iff.mp h with
  | cons he _ hf =>
      cases hf
      rw [List.append_nil]
      exact he

end Calculator
