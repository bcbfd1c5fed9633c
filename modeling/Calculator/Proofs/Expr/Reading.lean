import Calculator.Expr.Growth
import Calculator.Proofs.Expr.Built

/-!
# Reading builds the expression, and only that one

`Growth.Reads g us h`: the tokens `us` take the growth `g` to `h`, every one of them
belonging to the expression. Two inductions carry the module.

* What a growth holds has been built from the tokens that led to it (`Growth.Holds`, kept
  by every step).
* The tokens of an operand take a growth that waits for it to one that has it complete
  (`Built.reads`), whatever comes behind.

Together they say what `run` does: it takes the tokens of one expression and stops in
front of the first token that does not go on with it.
-/

namespace Calculator

namespace Growth

/-- The tokens `us` all belong to the expression, and take `g` to `h`. -/
inductive Reads : Growth → List Token → Growth → Prop
  | nil {g : Growth} : Reads g [] g
  | cons {g h k : Growth} {t : Token} {ts : List Token} (hstep : g.step t = .grow h)
      (hrest : Reads h ts k) : Reads g (t :: ts) k

theorem Reads.single {g h : Growth} {t : Token} (hstep : g.step t = .grow h) : Reads g [t] h :=
  .cons hstep .nil

theorem Reads.append {g h k : Growth} {us vs : List Token} (hus : Reads g us h)
    (hvs : Reads h vs k) : Reads g (us ++ vs) k := by
  induction hus with
  | nil => exact hvs
  | cons hstep _ ih => exact .cons hstep (ih hvs)

theorem Reads.run_append {g h : Growth} {us : List Token} (hus : Reads g us h) (last : Span)
    (vs : List Token) : g.run last (us ++ vs) = h.run last vs := by
  induction hus with
  | nil => rfl
  | cons hstep _ ih => simp only [List.cons_append, run, hstep, ih]

/-- Where a run stops, and what it then comes to. -/
def Halts (g : Growth) (last : Span) (outcome : Outcome) : List Token → Prop
  | [] => outcome = g.atEnd last
  | t :: _ => g.step t = .stop outcome

/-- A run reads some tokens and halts in front of the others. -/
theorem exists_reads_of_run (last : Span) (g : Growth) (ts : List Token) :
    ∃ us h, ts = us ++ (g.run last ts).2 ∧ Reads g us h ∧
      h.Halts last (g.run last ts).1 (g.run last ts).2 := by
  induction ts generalizing g with
  | nil => exact ⟨[], g, rfl, .nil, rfl⟩
  | cons t ts ih =>
      simp only [run]
      split
      · rename_i h hstep
        obtain ⟨us, k, hus, hreads, hhalts⟩ := ih h
        exact ⟨t :: us, k, congrArg (t :: ·) hus, .cons hstep hreads, hhalts⟩
      · rename_i outcome hstep
        exact ⟨[], g, rfl, .nil, hstep⟩

end Growth

/-! ## What a growth holds -/

/-- What waits at a precedence, and the tokens that it was built from. -/
inductive Waiting.Holds (p : Precedence) : Waiting → List Token → Prop
  | nothing : Holds p none []
  | operand {s : Span} {o : Op} {e : Expr} {us : List Token} (he : Built p e us)
      (ho : o.precedence = p) : Holds p (some (e, ⟨o, s⟩)) (us ++ [⟨.op o, s⟩])

/-- What waits between two parentheses, and the tokens that it was built from. -/
inductive Pending.Holds : Pending → List Token → Prop
  | mk {sum product : Waiting} {us vs : List Token} (hsum : sum.Holds .sum us)
      (hproduct : product.Holds .product vs) : Holds ⟨sum, product⟩ (us ++ vs)

/-- Open parentheses, and the tokens up to the innermost one. -/
inductive Opening.Hold : List Opening → List Token → Prop
  | nil : Hold [] []
  | group {s : Span} {p : Pending} {os : List Opening} {us vs : List Token} (hos : Hold os us)
      (hp : p.Holds vs) : Hold (⟨s, none, p⟩ :: os) (us ++ vs ++ [⟨.opening, s⟩])
  | multiple {s t : Span} {literal : String} {p : Pending} {os : List Opening}
      {us vs : List Token} (hos : Hold os us) (hp : p.Holds vs) :
      Hold (⟨s, some (.number t literal), p⟩ :: os)
        (us ++ vs ++ [⟨.number literal, t⟩, ⟨.opening, s⟩])

/-- A growth, and the tokens that led to it. -/
inductive Growth.Holds : Growth → List Token → Prop
  | due {p : Pending} {os : List Opening} {us vs : List Token} (hos : Opening.Hold os us)
      (hp : p.Holds vs) : Holds ⟨none, p, os⟩ (us ++ vs)
  | behind {e : Expr} {p : Pending} {os : List Opening} {us vs ws : List Token}
      (hos : Opening.Hold os us) (hp : p.Holds vs) (he : Built .atom e ws) :
      Holds ⟨some e, p, os⟩ (us ++ vs ++ ws)

theorem Waiting.Holds.complete_product {w : Waiting} {e : Expr} {us vs : List Token}
    (hw : w.Holds .product us) (he : Built .atom e vs) :
    Built .product (w.complete e) (us ++ vs) := by
  cases hw with
  | nothing => exact .factor he
  | operand hlhs ho =>
      rw [Waiting.complete_some, List.append_assoc]
      exact .product hlhs ho he

theorem Waiting.Holds.complete_sum {w : Waiting} {e : Expr} {us vs : List Token}
    (hw : w.Holds .sum us) (he : Built .product e vs) :
    Built .sum (w.complete e) (us ++ vs) := by
  cases hw with
  | nothing => exact .term he
  | operand hlhs ho =>
      rw [Waiting.complete_some, List.append_assoc]
      exact .sum hlhs ho he

theorem Pending.holds_empty : Pending.Holds {} [] := .mk .nothing .nothing

/-- What waits makes one sum with the operand it has waited for. -/
theorem Pending.Holds.total {p : Pending} {e : Expr} {us vs : List Token} (hp : p.Holds us)
    (he : Built .atom e vs) : Built .sum (p.total e) (us ++ vs) := by
  cases hp with
  | mk hsum hproduct =>
      rw [List.append_assoc]
      exact hsum.complete_sum (hproduct.complete_product he)

/-- An operator makes what waits and its operand wait in turn. -/
theorem Pending.Holds.push {p : Pending} {e : Expr} {us vs : List Token} (hp : p.Holds us)
    (he : Built .atom e vs) (o : Op) (s : Span) :
    (p.push e ⟨o, s⟩).Holds (us ++ vs ++ [⟨.op o, s⟩]) := by
  rcases o.precedence_eq with ho | ho
  · rw [push_of_multiplicative (Op.isMultiplicative_iff_precedence.2 ho)]
    cases hp with
    | mk hsum hproduct =>
        -- what the sum was built from stays in front of the product and its new operator
        rw [List.append_assoc, List.append_assoc, ← List.append_assoc _ vs]
        exact .mk hsum (.operand (hproduct.complete_product he) ho)
  · rw [push_of_additive (Op.isAdditive_iff_precedence.2 ho), ← List.append_nil (_ ++ _ ++ _)]
    exact .mk (.operand (hp.total he) ho) .nothing

/-- A closing parenthesis makes an atom of what stands between it and its partner. -/
theorem Opening.Hold.close {o : Opening} {os : List Opening} {e : Expr} {us vs : List Token}
    (hos : Opening.Hold (o :: os) us) (he : Built .sum e vs) (c : Span) :
    ∃ ws xs ys, us ++ vs ++ [⟨.closing, c⟩] = ws ++ xs ++ ys ∧ Opening.Hold os ws ∧
      o.outside.Holds xs ∧ Built .atom (o.close e c) ys := by
  cases hos with
  | @group s p os ws xs hos hp =>
      exact ⟨ws, xs, _, by simp, hos, hp, .group he⟩
  | @multiple s t literal p os ws xs hos hp =>
      exact ⟨ws, xs, _, by simp, hos, hp, .multiple he⟩

namespace Growth

/-- Every step keeps account of the token it takes. -/
theorem Holds.step {g h : Growth} {us : List Token} {t : Token} (hg : g.Holds us)
    (hstep : g.step t = .grow h) : h.Holds (us ++ [t]) := by
  obtain ⟨v, s⟩ := t
  cases hg with
  | @due p os us vs hos hp =>
      cases v with
      | number literal =>
          cases hstep
          exact .behind hos hp .number
      | opening =>
          cases hstep
          rw [← List.append_nil (_ ++ _ ++ _)]
          exact .due (.group hos hp) Pending.holds_empty
      | op o => cases hstep
      | closing => cases hstep
  | @behind e p os us vs ws hos hp he =>
      cases v with
      | number literal => cases hstep
      | op o =>
          cases hstep
          rw [List.append_assoc us, List.append_assoc us]
          exact .due hos (hp.push he o s)
      | opening =>
          -- behind an operand, a parenthesis belongs to the expression only if that is a number
          cases he with
          | number =>
              cases hstep
              rw [← List.append_nil (_ ++ _ ++ _), List.append_assoc (us ++ vs)]
              exact .due (.multiple hos hp) Pending.holds_empty
          | group => cases hstep
          | multiple => cases hstep
      | closing =>
          cases os with
          | nil => cases hstep
          | cons o os =>
              cases hstep
              obtain ⟨ws, xs, ys, hus, hos', hp', he'⟩ := hos.close (hp.total he) s
              rw [List.append_assoc us, hus]
              exact .behind hos' hp' he'

theorem Holds.reads {g h : Growth} {us vs : List Token} (hg : g.Holds us)
    (hvs : g.Reads vs h) : h.Holds (us ++ vs) := by
  induction hvs generalizing us with
  | nil => simpa using hg
  | cons hstep _ ih => simpa using ih (hg.step hstep)

theorem holds_empty : Growth.Holds {} [] := .due .nil Pending.holds_empty

/-- What a growth holds when no parenthesis is open. -/
theorem Holds.built {e : Expr} {p : Pending} {us : List Token}
    (hg : Growth.Holds ⟨some e, p, []⟩ us) :
    Built .sum (p.total e) us ∧
      (EndsInNumber (us.map Located.val) ↔ ∃ s literal, e = .number s literal) := by
  cases hg with
  | @behind e p os us vs ws hos hp he =>
      cases hos
      refine ⟨hp.total he, ?_⟩
      rw [← he.endsInNumber_iff, List.map_append]
      exact endsInNumber_append (by simpa using he.ne_nil)

end Growth

/-! ## Every operand is read -/

/-- Whether an operand of a precedence is due. -/
def Growth.Due (g : Growth) : Precedence → Prop
  | .atom => g.operand = none
  | .product => g.operand = none ∧ g.pending.product = none
  | .sum => g.operand = none ∧ g.pending = {}

/-- The growth `h` is `g` with the operand `e` complete. -/
def Growth.Completed (g h : Growth) (e : Expr) : Precedence → Prop
  | .atom => h = { g with operand := some e }
  | .product => ∃ a product, h = ⟨some a, ⟨g.pending.sum, product⟩, g.openings⟩ ∧
      product.complete a = e
  | .sum => ∃ a p, h = ⟨some a, p, g.openings⟩ ∧ p.total a = e

/-- The tokens of an operand complete it where it is due. -/
theorem Built.reads {l : Precedence} {e : Expr} {us : List Token} (he : Built l e us) {g : Growth}
    (hg : g.Due l) : ∃ h, g.Reads us h ∧ g.Completed h e l := by
  induction he generalizing g with
  | number =>
      obtain ⟨_, p, os⟩ := g
      cases hg
      exact ⟨_, .single rfl, rfl⟩
  | @group o c e us he ih =>
      -- inside the parentheses nothing waits, and what waits outside is kept with the opening one
      obtain ⟨_, p, os⟩ := g
      cases hg
      obtain ⟨h, hreads, a, q, rfl, rfl⟩ :=
        ih (g := ⟨none, {}, ⟨o, none, p⟩ :: os⟩) ⟨rfl, rfl⟩
      exact ⟨_, .cons rfl (hreads.append (.single rfl)), rfl⟩
  | @multiple s o c literal e us he ih =>
      obtain ⟨_, p, os⟩ := g
      cases hg
      obtain ⟨h, hreads, a, q, rfl, rfl⟩ :=
        ih (g := ⟨none, {}, ⟨o, some (.number s literal), p⟩ :: os⟩) ⟨rfl, rfl⟩
      exact ⟨_, .cons rfl (.cons rfl (hreads.append (.single rfl))), rfl⟩
  | factor _ ih =>
      obtain ⟨_, ⟨sum, _⟩, os⟩ := g
      obtain ⟨hdue, hproduct⟩ := hg
      cases hdue; cases hproduct
      obtain ⟨h, hreads, rfl⟩ := ih (g := ⟨none, ⟨sum, none⟩, os⟩) rfl
      exact ⟨_, hreads, _, none, rfl, rfl⟩
  | @product s o e f us vs _ ho _ ih₁ ih₂ =>
      obtain ⟨h, hus, a, product, rfl, rfl⟩ := ih₁ hg
      have hpush : Pending.push ⟨g.pending.sum, product⟩ a ⟨o, s⟩ =
          ⟨g.pending.sum, some (product.complete a, ⟨o, s⟩)⟩ :=
        Pending.push_of_multiplicative (Op.isMultiplicative_iff_precedence.2 ho)
      obtain ⟨k, hvs, rfl⟩ :=
        ih₂ (g := ⟨none, Pending.push ⟨g.pending.sum, product⟩ a ⟨o, s⟩, g.openings⟩) rfl
      refine ⟨_, hus.append (.cons rfl hvs), f, some (product.complete a, ⟨o, s⟩), ?_, rfl⟩
      rw [hpush]
  | term _ ih =>
      obtain ⟨_, _, os⟩ := g
      obtain ⟨hdue, hpending⟩ := hg
      cases hdue; cases hpending
      obtain ⟨h, hreads, a, product, rfl, rfl⟩ := ih (g := ⟨none, {}, os⟩) ⟨rfl, rfl⟩
      exact ⟨_, hreads, a, _, rfl, rfl⟩
  | @sum s o e f us vs _ ho _ ih₁ ih₂ =>
      obtain ⟨h, hus, a, p, rfl, rfl⟩ := ih₁ hg
      have hpush : p.push a ⟨o, s⟩ = { sum := some (p.total a, ⟨o, s⟩) } :=
        Pending.push_of_additive (Op.isAdditive_iff_precedence.2 ho)
      obtain ⟨k, hvs, b, product, rfl, rfl⟩ :=
        ih₂ (g := ⟨none, p.push a ⟨o, s⟩, g.openings⟩) ⟨rfl, by rw [hpush]⟩
      refine ⟨_, hus.append (.cons rfl hvs), b, _, rfl, ?_⟩
      rw [hpush]
      rfl

/-! ## What a run takes -/

namespace Growth

/-- Behind a complete expression, a run stops exactly in front of what does not go on with
it. -/
theorem step_eq_stop_iff {e : Expr} {p : Pending} {us : List Token} {t : Token} {ts : List Token}
    (hg : Growth.Holds ⟨some e, p, []⟩ us) :
    Growth.step ⟨some e, p, []⟩ t = .stop (.ok (p.total e)) ↔
      Parted (us.map Located.val) ((t :: ts).map Located.val) := by
  obtain ⟨v, s⟩ := t
  have hnumber := hg.built.2
  cases v with
  | number literal => simp [Growth.step, Growth.stepBehind, Growth.finish, Parted]
  | op o => simp [Growth.step, Growth.stepBehind, Parted]
  | closing => simp [Growth.step, Growth.stepBehind, Growth.finish, Parted]
  | opening =>
      cases e <;> simp [Growth.step, Growth.stepBehind, Growth.finish, Parted, hnumber]

/-- An expression ends well only where no parenthesis is open. -/
theorem finish_eq_ok_iff {g : Growth} {a e : Expr} :
    g.finish a = .ok e ↔ g.openings = [] ∧ g.pending.total a = e := by
  obtain ⟨operand, p, os⟩ := g
  cases os with
  | nil => simp [finish]
  | cons o os => simp [finish]

/-- Behind an operand, a token that does not belong to the expression ends it there. -/
theorem eq_finish_of_stepBehind {g : Growth} {a : Expr} {t : Token} {outcome : Outcome}
    (h : g.stepBehind a t = .stop outcome) : outcome = g.finish a := by
  obtain ⟨operand, p, os⟩ := g
  obtain ⟨v, s⟩ := t
  cases v with
  | number literal => cases h; rfl
  | op o => cases h
  | opening =>
      cases a with
      | number => cases h
      | group => cases h; rfl
      | binary => cases h; rfl
  | closing =>
      cases os with
      | nil => cases h; rfl
      | cons o os => cases h

/-- Where a run ends well, an operand is complete and no parenthesis is open. -/
theorem Halts.of_ok {g : Growth} {last : Span} {e : Expr} {ts : List Token}
    (h : g.Halts last (.ok e) ts) : ∃ a p, g = ⟨some a, p, []⟩ ∧ p.total a = e := by
  have hfinish : ∃ a, g.operand = some a ∧ g.finish a = .ok e := by
    obtain ⟨operand, p, os⟩ := g
    cases operand with
    | none =>
        -- where an operand is due, whatever ends the run is a failure
        cases ts with
        | nil => cases h
        | cons t ts =>
            obtain ⟨v, s⟩ := t
            cases v <;> cases h
    | some a =>
        refine ⟨a, rfl, ?_⟩
        cases ts with
        | nil => exact h.symm
        | cons t ts => exact (eq_finish_of_stepBehind h).symm
  obtain ⟨a, hoperand, hfinish⟩ := hfinish
  obtain ⟨hopenings, htotal⟩ := finish_eq_ok_iff.1 hfinish
  obtain ⟨operand, p, os⟩ := g
  cases hoperand; cases hopenings
  exact ⟨a, p, rfl, htotal⟩

/-- **Reading an expression.** A run from the start succeeds exactly if the tokens begin
with those of an expression that no token behind it goes on with. -/
theorem run_eq_ok_iff {last : Span} {ts rest : List Token} {e : Expr} :
    run last {} ts = (.ok e, rest) ↔
      ∃ us, ts = us ++ rest ∧ Built .sum e us ∧
        Parted (us.map Located.val) (rest.map Located.val) := by
  constructor
  · intro h
    obtain ⟨us, g, hts, hreads, hhalts⟩ := exists_reads_of_run last {} ts
    rw [h] at hts hhalts
    obtain ⟨a, p, rfl, rfl⟩ := hhalts.of_ok
    have hg : Growth.Holds _ us := holds_empty.reads hreads
    refine ⟨us, hts, hg.built.1, ?_⟩
    cases rest with
    | nil => exact parted_nil _
    | cons t ts => exact (step_eq_stop_iff hg).1 hhalts
  · intro h
    obtain ⟨us, rfl, he, hparted⟩ := h
    obtain ⟨h, hreads, a, p, rfl, rfl⟩ := he.reads (g := {}) ⟨rfl, rfl⟩
    have hg : Growth.Holds _ us := holds_empty.reads hreads
    rw [hreads.run_append]
    cases rest with
    | nil => rfl
    | cons t ts =>
        simp only [run, (step_eq_stop_iff hg).2 hparted]

end Growth

end Calculator
