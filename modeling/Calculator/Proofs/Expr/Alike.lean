import Calculator.Expr.Growth
import Calculator.Proofs.Expr.Nodes
import Mathlib.Data.List.Forall2

/-!
# Reading does not look at places

Two growths are alike if they hold operands that are related, with the same operators between them
and the same parentheses open. Tokens with the same symbols, wherever they stand, take growths that
are alike to growths that are alike (`Growth.Alike.step`), and so a run comes to related expressions
or to the same fault (`Growth.Alike.run`). What the relation is does not matter, if it goes up from
operands to what is made of them: `Expr.Congruence`.
-/

namespace Calculator

/-- Both succeed, with related values, or both fail for the same reason. -/
inductive Agree {ε α β : Type} (r : α → β → Prop) :
    Except (Located ε) α → Except (Located ε) β → Prop
  | ok {a : α} {b : β} (h : r a b) : Agree r (.ok a) (.ok b)
  | error {f g : Located ε} (h : f.val = g.val) : Agree r (.error f) (.error g)

theorem Agree.imp {ε α β : Type} {r s : α → β → Prop} {x : Except (Located ε) α}
    {y : Except (Located ε) β} (hrs : ∀ a b, r a b → s a b) (h : Agree r x y) : Agree s x y := by
  cases h with
  | ok hvalue => exact .ok (hrs _ _ hvalue)
  | error hfault => exact .error hfault

namespace Expr

/-- A relation that goes up from operands to what is made of them. Where they stand plays no
part. -/
structure Congruence (r : Expr → Expr → Prop) : Prop where
  number (s t : Span) (literal : String) : r (.number s literal) (.number t literal)
  group {d e : Expr} (s t : Span) (h : r d e) : r (.group s d) (.group t e)
  binary {a b d e : Expr} {o p : Located Op} (s t : Span) (ho : o.val = p.val) (hlhs : r a b)
    (hrhs : r d e) : r (.binary s o a d) (.binary t p b e)

/-- Whether an expression is a number with nothing around it. -/
def isNumber : Expr → Bool
  | number .. => true
  | group .. | binary .. => false

end Expr

/-- What relates operands relates every expression to itself. -/
theorem Expr.Congruence.refl {r : Expr → Expr → Prop} (hr : Expr.Congruence r) (e : Expr) :
    r e e := by
  induction e with
  | number => exact hr.number ..
  | group _ _ ih => exact hr.group _ _ ih
  | binary _ _ _ _ ih₁ ih₂ => exact hr.binary _ _ rfl ih₁ ih₂

/-- An expression that is moved stays related to itself. -/
theorem Expr.Congruence.shift {r : Expr → Expr → Prop} (hr : Expr.Congruence r) (e : Expr)
    (n : Nat) : r e (e.shift n) := by
  induction e with
  | number => exact hr.number ..
  | group _ _ ih => exact hr.group _ _ ih
  | binary _ _ _ _ ih₁ ih₂ => exact hr.binary _ _ rfl ih₁ ih₂

/-! ## What is alike -/

section

variable (r : Expr → Expr → Prop)

/-- Nothing waits, or related operands do in front of the same operator. -/
inductive Waiting.Alike : Waiting → Waiting → Prop
  | nothing : Alike none none
  | operand {d e : Expr} {o p : Located Op} (he : r d e) (ho : o.val = p.val) :
      Alike (some (d, o)) (some (e, p))

structure Pending.Alike (p q : Pending) : Prop where
  sum : p.sum.Alike r q.sum
  product : p.product.Alike r q.product

structure Opening.Alike (o p : Opening) : Prop where
  multiplier : Option.Rel r o.multiplier p.multiplier
  outside : o.outside.Alike r p.outside

/-- A complete operand is looked at in one respect: whether it is a bare number. -/
structure Expr.Operands (d e : Expr) : Prop where
  related : r d e
  isNumber_eq : d.isNumber = e.isNumber

/-- What has been read comes to the same, but for the places. -/
structure Growth.Alike (g h : Growth) : Prop where
  operand : Option.Rel (Expr.Operands r) g.operand h.operand
  pending : g.pending.Alike r h.pending
  openings : List.Forall₂ (Opening.Alike r) g.openings h.openings

inductive Step.Alike : Step → Step → Prop
  | grow {g h : Growth} (halike : g.Alike r h) : Alike (.grow g) (.grow h)
  | stop {a b : Outcome} (hagree : Agree r a b) : Alike (.stop a) (.stop b)

end

variable {r : Expr → Expr → Prop}

theorem Pending.alike_empty : Pending.Alike r {} {} := ⟨.nothing, .nothing⟩

theorem Growth.alike_empty : Growth.Alike r {} {} := ⟨.none, Pending.alike_empty, .nil⟩

theorem Growth.Alike.enter {g h : Growth} (hg : g.Alike r h) {m n : Option Expr}
    (hmultiplier : Option.Rel r m n) (s t : Span) : (g.enter s m).Alike r (h.enter t n) :=
  ⟨.none, Pending.alike_empty, .cons ⟨hmultiplier, hg.pending⟩ hg.openings⟩

/-- A parenthesis behind an operand goes on with a bare number only. -/
theorem Growth.stepBehind_opening (g : Growth) (e : Expr) (s : Span) :
    g.stepBehind e ⟨.opening, s⟩ =
      if e.isNumber then .grow (g.enter s (some e)) else .stop (g.finish e) := by
  cases e <;> rfl

/-! ## Growing -/

section

variable (hr : Expr.Congruence r)

include hr

theorem Waiting.Alike.complete {v w : Waiting} (h : v.Alike r w) {d e : Expr} (he : r d e) :
    r (v.complete d) (w.complete e) := by
  cases h with
  | nothing => exact he
  | operand hlhs ho => exact hr.binary _ _ ho hlhs he

theorem Pending.Alike.factor {p q : Pending} (h : p.Alike r q) {d e : Expr} (he : r d e) :
    r (p.factor d) (q.factor e) := h.product.complete hr he

theorem Pending.Alike.total {p q : Pending} (h : p.Alike r q) {d e : Expr} (he : r d e) :
    r (p.total d) (q.total e) := h.sum.complete hr (h.factor hr he)

theorem Pending.Alike.push {p q : Pending} (h : p.Alike r q) {d e : Expr} (he : r d e) (o : Op)
    (s t : Span) : (p.push d ⟨o, s⟩).Alike r (q.push e ⟨o, t⟩) := by
  cases ho : o.isAdditive with
  | true =>
      rw [push_of_additive ho, push_of_additive ho]
      exact ⟨.operand (h.total hr he) rfl, .nothing⟩
  | false =>
      have ho : o.isMultiplicative = true := by rw [Op.isMultiplicative, ho]; rfl
      rw [push_of_multiplicative ho, push_of_multiplicative ho]
      exact ⟨h.sum, .operand (h.factor hr he) rfl⟩

/-- A closed parenthesis is an operand that is no bare number. -/
theorem Opening.Alike.close {o p : Opening} (h : o.Alike r p) {d e : Expr} (he : r d e)
    (s t : Span) : Expr.Operands r (o.close d s) (p.close e t) := by
  obtain ⟨s', m, out⟩ := o
  obtain ⟨t', n, out'⟩ := p
  obtain ⟨hmultiplier, -⟩ := h
  cases hmultiplier with
  | none => exact ⟨hr.group _ _ he, rfl⟩
  | some hnumber => exact ⟨hr.binary _ _ rfl hnumber (hr.group _ _ he), rfl⟩

namespace Growth

variable {g h : Growth}

theorem Alike.finish (hg : g.Alike r h) {d e : Expr} (he : r d e) :
    Agree r (g.finish d) (h.finish e) := by
  obtain ⟨operand, p, os⟩ := g
  obtain ⟨operand', q, os'⟩ := h
  obtain ⟨-, hpending, hopenings⟩ := hg
  cases hopenings with
  | nil => exact .ok (hpending.total hr he)
  | cons => exact .error rfl

theorem Alike.stepOperand (hg : g.Alike r h) (v : Symbol) (s t : Span) :
    (g.stepOperand ⟨v, s⟩).Alike r (h.stepOperand ⟨v, t⟩) := by
  cases v with
  | number literal =>
      exact .grow ⟨.some ⟨hr.number s t literal, rfl⟩, hg.pending, hg.openings⟩
  | opening => exact .grow (hg.enter .none s t)
  | op o => exact .stop (.error rfl)
  | closing => exact .stop (.error rfl)

theorem Alike.stepBehind (hg : g.Alike r h) {d e : Expr} (he : Expr.Operands r d e) (v : Symbol)
    (s t : Span) : (g.stepBehind d ⟨v, s⟩).Alike r (h.stepBehind e ⟨v, t⟩) := by
  have hfinish : Agree r (g.finish d) (h.finish e) := hg.finish hr he.related
  cases v with
  | number literal => exact .stop hfinish
  | op o => exact .grow ⟨.none, hg.pending.push hr he.related o s t, hg.openings⟩
  | opening =>
      rw [stepBehind_opening, stepBehind_opening, he.isNumber_eq]
      split
      · exact .grow (hg.enter (.some he.related) s t)
      · exact .stop hfinish
  | closing =>
      obtain ⟨operand, p, os⟩ := g
      obtain ⟨operand', q, os'⟩ := h
      obtain ⟨hoperand, hpending, hopenings⟩ := hg
      cases hopenings with
      | nil => exact .stop hfinish
      | cons ho hos =>
          exact .grow ⟨.some (ho.close hr (hpending.total hr he.related) s t), ho.outside, hos⟩

/-- **A step looks at the symbol only.** -/
theorem Alike.step (hg : g.Alike r h) (v : Symbol) (s t : Span) :
    (g.step ⟨v, s⟩).Alike r (h.step ⟨v, t⟩) := by
  obtain ⟨operand, p, os⟩ := g
  obtain ⟨operand', q, os'⟩ := h
  cases hg.operand with
  | none => exact hg.stepOperand hr v s t
  | some he => exact hg.stepBehind hr he v s t

theorem Alike.atEnd (hg : g.Alike r h) (last last' : Span) :
    Agree r (g.atEnd last) (h.atEnd last') := by
  obtain ⟨operand, p, os⟩ := g
  obtain ⟨operand', q, os'⟩ := h
  cases hg.operand with
  | none => exact .error rfl
  | some he => exact hg.finish hr he.related

/-- **A run looks at the symbols only.** -/
theorem Alike.run (hg : g.Alike r h) {ts us : List Token}
    (hts : ts.map Located.val = us.map Located.val) (last last' : Span) :
    Agree r (g.run last ts).1 (h.run last' us).1 ∧
      (g.run last ts).2.map Located.val = (h.run last' us).2.map Located.val := by
  induction ts generalizing g h us with
  | nil =>
      cases List.map_eq_nil_iff.mp hts.symm
      exact ⟨hg.atEnd hr last last', rfl⟩
  | cons t ts ih =>
      obtain ⟨⟨v, s⟩, us, rfl, hval, hus⟩ := List.map_eq_cons_iff.mp hts.symm
      obtain ⟨w, s'⟩ := t
      cases hval
      have hstep := hg.step hr v s' s
      simp only [Growth.run]
      generalize g.step ⟨v, s'⟩ = a, h.step ⟨v, s⟩ = b at hstep
      cases hstep with
      | grow halike => exact ih halike hus.symm
      | stop hagree => exact ⟨hagree, hts⟩

end Growth

end

end Calculator
