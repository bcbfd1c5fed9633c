import Calculator.Proofs.Forest.Formed

/-!
# The language that is read

Reading succeeds on exactly the lists of tokens that the grammar derives. That what is read
is derived follows from the trees it is read into. The other half has to get along with an
ambiguous grammar: a derivation may end an expression behind a number and begin the next
one with a group, where reading makes a product of the two. Nothing is lost by that, since
a growth without open parentheses is as ready for the tokens behind the group as a new one
(`Growth.resumes_of_derives`).
-/

namespace Calculator

/-- What a forest is formed from, the grammar derives. -/
theorem Formed.derives {f : Forest} {ts : List Token} (h : Formed f ts) :
    Derives .forest (ts.map Located.val) := by
  induction h with
  | nil => exact .forest_nil
  | cons he _ _ ih =>
      rw [List.map_append]
      exact .forest_cons (.expression he.derives) ih

namespace Growth

/-- The first of the tokens belongs to the expression. -/
def Takes (g : Growth) (ts : List Token) : Prop := ∀ t ∈ ts.head?, ∃ h, g.step t = .grow h

/-- All of the tokens belong to the expression, and end with an operand behind which the
same parentheses are open as before. -/
def Completes (g : Growth) (ts : List Token) : Prop :=
  ∃ h, g.Reads ts h ∧ h.operand.isSome = true ∧ h.openings = g.openings

/-- Symbols that begin an operand, and complete it wherever the first of them is taken. -/
structure Completing (u : List Symbol) : Prop where
  begins : ∃ s v, u = s :: v ∧ s.begins = true
  completes : ∀ (ts : List Token) (g : Growth), ts.map Located.val = u → g.Takes ts →
    g.Completes ts

/-- An operand is taken where one is due. -/
theorem Completing.takes {u : List Symbol} (hu : Completing u) {ts : List Token}
    (hts : ts.map Located.val = u) {g : Growth} (hg : g.operand = none) : g.Takes ts := by
  obtain ⟨operand, p, os⟩ := g
  cases hg
  obtain ⟨v, w, rfl, hv⟩ := hu.begins
  obtain ⟨s, vs, rfl, -⟩ := exists_cons_of_map hts
  intro t ht
  cases ht
  cases v with
  | number literal => exact ⟨_, rfl⟩
  | opening => exact ⟨_, rfl⟩
  | op o => cases hv
  | closing => cases hv

theorem of_step_number {g h : Growth} {literal : String} {s : Span}
    (hstep : g.step ⟨.number literal, s⟩ = .grow h) :
    h = { g with operand := some (.number s literal) } := by
  obtain ⟨operand, p, os⟩ := g
  cases operand <;> cases hstep
  rfl

/-- An opening parenthesis that is taken is one more that is open. -/
theorem of_step_opening {g h : Growth} {s : Span} (hstep : g.step ⟨.opening, s⟩ = .grow h) :
    ∃ multiplier, h = g.enter s multiplier := by
  obtain ⟨operand, p, os⟩ := g
  cases operand with
  | none => cases hstep; exact ⟨none, rfl⟩
  | some e =>
      cases e with
      | number => cases hstep; exact ⟨_, rfl⟩
      | group => cases hstep
      | binary => cases hstep

theorem completing_number (literal : String) : Completing [.number literal] := by
  refine ⟨⟨_, _, rfl, rfl⟩, ?_⟩
  intro ts g hts hg
  obtain ⟨s, vs, rfl, hvs⟩ := exists_cons_of_map hts
  cases List.map_eq_nil_iff.1 hvs
  obtain ⟨h, hstep⟩ := hg _ rfl
  cases of_step_number hstep
  exact ⟨_, .single hstep, rfl, rfl⟩

theorem Completing.group {u : List Symbol} (hu : Completing u) :
    Completing (.opening :: (u ++ [.closing])) := by
  refine ⟨⟨_, _, rfl, rfl⟩, ?_⟩
  intro ts g hts hg
  obtain ⟨s, c, us, rfl, hus⟩ := exists_group_of_map hts
  obtain ⟨h, hstep⟩ := hg _ rfl
  obtain ⟨multiplier, rfl⟩ := of_step_opening hstep
  obtain ⟨⟨operand, p, os⟩, hreads, hoperand, hopenings⟩ :=
    hu.completes us (g.enter s multiplier) hus (hu.takes hus rfl)
  cases hopenings
  cases operand with
  | none => cases hoperand
  | some a => exact ⟨_, .cons hstep (hreads.append (.single rfl)), rfl, rfl⟩

theorem Completing.multiple {u : List Symbol} (hu : Completing u) (literal : String) :
    Completing (.number literal :: .opening :: (u ++ [.closing])) := by
  refine ⟨⟨_, _, rfl, rfl⟩, ?_⟩
  intro ts g hts hg
  obtain ⟨s, vs, rfl, hvs⟩ := exists_cons_of_map hts
  obtain ⟨h, hstep⟩ := hg _ rfl
  cases of_step_number hstep
  have htakes : Takes { g with operand := some (.number s literal) } vs := by
    obtain ⟨o, ws, rfl, -⟩ := exists_cons_of_map hvs
    intro t ht
    cases ht
    exact ⟨_, rfl⟩
  obtain ⟨k, hreads, hk⟩ := hu.group.completes vs _ hvs htakes
  exact ⟨k, .cons hstep hreads, hk⟩

/-- Operands with operators in front are read behind an operand. -/
theorem completes_of_chained {vs : List (Op × List Symbol)} (hvs : ∀ v ∈ vs, Completing v.2)
    {ts : List Token} {g : Growth} (hts : ts.map Located.val = chained vs)
    (hg : g.operand.isSome = true) : g.Completes ts := by
  induction vs generalizing ts g with
  | nil =>
      cases List.map_eq_nil_iff.1 hts
      exact ⟨g, .nil, hg, rfl⟩
  | cons v vs ih =>
      obtain ⟨operand, p, os⟩ := g
      cases operand with
      | none => cases hg
      | some a =>
          rw [chained_cons] at hts
          obtain ⟨s, xs, rfl, hxs⟩ := exists_cons_of_map hts
          obtain ⟨us, ws, rfl, hus, hws⟩ := List.map_eq_append_iff.1 hxs
          have hv : Completing v.2 := hvs v (List.mem_cons_self ..)
          obtain ⟨h, hreads, hoperand, hopenings⟩ :=
            hv.completes us ⟨none, p.push a ⟨v.1, s⟩, os⟩ hus (hv.takes hus rfl)
          obtain ⟨k, hreads', hoperand', hopenings'⟩ :=
            ih (fun w hw => hvs w (List.mem_cons_of_mem _ hw)) hws hoperand
          exact ⟨k, .cons rfl (hreads.append hreads'), hoperand', hopenings'.trans hopenings⟩

theorem Completing.append_chained {u : List Symbol} {vs : List (Op × List Symbol)}
    (hu : Completing u) (hvs : ∀ v ∈ vs, Completing v.2) : Completing (u ++ chained vs) := by
  obtain ⟨s, w, rfl, hs⟩ := hu.begins
  refine ⟨⟨s, _, rfl, hs⟩, ?_⟩
  intro ts g hts hg
  obtain ⟨us, ws, rfl, hus, hws⟩ := List.map_eq_append_iff.1 hts
  have htakes : g.Takes us := by
    obtain ⟨t, us, rfl, -⟩ := exists_cons_of_map hus
    exact hg
  obtain ⟨h, hreads, hoperand, hopenings⟩ := hu.completes us g hus htakes
  obtain ⟨k, hreads', hoperand', hopenings'⟩ := completes_of_chained hvs hws hoperand
  exact ⟨k, hreads.append hreads', hoperand', hopenings'.trans hopenings⟩

/-- Whatever the grammar derives but a forest is an operand. -/
theorem completing_of_derives {c : Category} {u : List Symbol} (hu : Derives c u)
    (hc : c ≠ .forest) : Completing u := by
  induction hu with
  | forest => exact absurd rfl hc
  | expression _ ih => exact ih (by decide)
  | additive _ _ _ ih₁ ih₂ =>
      exact (ih₁ (by decide)).append_chained fun v hv => ih₂ v hv (by decide)
  | multiplicative _ _ _ ih₁ ih₂ =>
      exact (ih₁ (by decide)).append_chained fun v hv => ih₂ v hv (by decide)
  | group _ ih => exact (ih (by decide)).group
  | number => exact completing_number _
  | multiple _ ih => exact (ih (by decide)).multiple _

/-- The tokens are read as the end of an expression and the forest behind it. -/
def Resumes (g : Growth) (last : Span) (ts : List Token) : Prop :=
  ∃ e rest trees, g.run last ts = (.ok e, rest) ∧
    (Feed.mk last rest).forest.1 = .ok trees

theorem Resumes.forest {last : Span} {ts : List Token} (h : Resumes {} last ts) :
    ∃ trees, (Feed.mk last ts).forest.1 = .ok trees := by
  obtain ⟨e, rest, trees, hrun, hrest⟩ := h
  have hexpr : (Feed.mk last ts).expr = (.ok e, ⟨last, rest⟩) := by
    simp only [Feed.expr, hrun]
  rw [Feed.forest_of_expr hexpr, hrest]
  exact ⟨e :: trees, rfl⟩

/-- Where an operand is taken, what resumes behind it resumes in front of it. -/
theorem Completing.resumes_append {u : List Symbol} (hu : Completing u) {vs ws : List Token}
    (hvs : vs.map Located.val = u) {last : Span}
    (hws : ∀ a p, Resumes ⟨some a, p, []⟩ last ws) {g : Growth} (hopenings : g.openings = [])
    (htakes : g.Takes vs) : g.Resumes last (vs ++ ws) := by
  obtain ⟨⟨operand, p, os⟩, hreads, hoperand, hos⟩ := hu.completes vs g hvs htakes
  rw [hopenings] at hos
  cases hos
  cases operand with
  | none => cases hoperand
  | some a =>
      rw [Resumes, hreads.run_append]
      exact hws a p

/-- **Greedy reading loses nothing.** Expressions side by side are read from every growth
that could end here, whether or not the first of them goes on with it. -/
theorem resumes_of_derives {us : List (List Symbol)} (hus : ∀ u ∈ us, Derives .expression u)
    {ts : List Token} (hts : ts.map Located.val = us.flatten) (last : Span) (a : Expr)
    (p : Pending) : Resumes ⟨some a, p, []⟩ last ts := by
  induction us generalizing ts a p with
  | nil =>
      cases List.map_eq_nil_iff.1 hts
      exact ⟨p.total a, [], [], rfl, by rw [Feed.forest_of_empty]⟩
  | cons u us ih =>
      rw [List.flatten_cons] at hts
      obtain ⟨vs, ws, rfl, hvs, hws⟩ := List.map_eq_append_iff.1 hts
      have hu : Completing u :=
        completing_of_derives (hus u (List.mem_cons_self ..)) (by decide)
      have hrest : ∀ b q, Resumes ⟨some b, q, []⟩ last ws :=
        fun b q => ih (fun v hv => hus v (List.mem_cons_of_mem _ hv)) hws b q
      obtain ⟨s, w, rfl, -⟩ := hu.begins
      obtain ⟨t, xs, rfl, -⟩ := exists_cons_of_map hvs
      cases hstep : Growth.step ⟨some a, p, []⟩ ⟨s, t⟩ with
      | grow h =>
          -- the group behind a number: both belong to one product
          refine hu.resumes_append hvs hrest rfl ?_
          intro t' ht'
          cases ht'
          exact ⟨h, hstep⟩
      | stop outcome =>
          -- the expression ends here, and a new growth reads the next
          obtain ⟨trees, htrees⟩ := (hu.resumes_append hvs hrest rfl (hu.takes hvs rfl)).forest
          have houtcome : outcome = .ok (p.total a) := eq_finish_of_stepBehind hstep
          refine ⟨p.total a, ⟨s, t⟩ :: (xs ++ ws), trees, ?_, htrees⟩
          simp only [List.cons_append, run, hstep, houtcome]

end Growth

/-- Whatever the grammar derives is read, wherever its end may be said to be. -/
theorem Feed.exists_forest_of_derives {ts : List Token} (h : Derives .forest (ts.map Located.val))
    (last : Span) : ∃ trees, (⟨last, ts⟩ : Feed).forest.1 = .ok trees := by
  generalize hv : ts.map Located.val = v at h
  cases h with
  | @forest us hus =>
      cases us with
      | nil =>
          cases List.map_eq_nil_iff.mp hv
          exact ⟨[], Feed.forest_eq_ok_iff.mpr .nil⟩
      | cons u us =>
          rw [List.flatten_cons] at hv
          obtain ⟨vs, ws, rfl, hvs, hws⟩ := List.map_eq_append_iff.mp hv
          have hu : Growth.Completing u :=
            Growth.completing_of_derives (hus u (List.mem_cons_self ..)) (by decide)
          have hrest : ∀ a p, Growth.Resumes ⟨some a, p, []⟩ last ws :=
            Growth.resumes_of_derives (fun v hv => hus v (List.mem_cons_of_mem _ hv)) hws last
          exact (hu.resumes_append hvs hrest rfl (hu.takes hvs rfl)).forest

/-- **The language that is read.** A list of tokens is read into a forest exactly if the
grammar derives it. -/
theorem exists_forestOf_iff_derives (tokens : List Token) :
    (∃ trees, forestOf tokens = .ok trees) ↔ Derives .forest (tokens.map Located.val) := by
  constructor
  · intro h
    obtain ⟨trees, h⟩ := h
    exact (forestOf_eq_ok_iff.1 h).derives
  · intro h
    generalize hv : tokens.map Located.val = v at h
    cases h with
    | @forest us hus =>
        cases us with
        | nil =>
            cases List.map_eq_nil_iff.1 hv
            exact ⟨[], forestOf_eq_ok_iff.2 .nil⟩
        | cons u us =>
            rw [List.flatten_cons] at hv
            obtain ⟨vs, ws, rfl, hvs, hws⟩ := List.map_eq_append_iff.1 hv
            have hu : Growth.Completing u :=
              Growth.completing_of_derives (hus u (List.mem_cons_self ..)) (by decide)
            have hrest := Growth.resumes_of_derives
              (fun v hv => hus v (List.mem_cons_of_mem _ hv)) hws (Feed.endOf (vs ++ ws))
            exact (hu.resumes_append hvs hrest rfl (hu.takes hvs rfl)).forest

end Calculator
