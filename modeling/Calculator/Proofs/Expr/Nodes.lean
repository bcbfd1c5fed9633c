import Calculator.Proofs.Expr.Built
import Calculator.Proofs.Token.Slicing

/-!
# The nodes of an expression

Every node of an expression is built from consecutive tokens of the expression
(`Built.exists_of_mem_nodes`), and where tokens stand in order, it spans from the first of them
to the last (`Built.spans`). What tokens build moves with them (`Built.shift`).
-/

namespace Calculator

namespace Expr

/-- An expression and all that it consists of, every operand behind the node it belongs to. -/
def nodes : Expr → List Expr
  | number s literal => [number s literal]
  | group s inner => group s inner :: inner.nodes
  | binary s op lhs rhs => binary s op lhs rhs :: (lhs.nodes ++ rhs.nodes)

theorem mem_nodes_self (e : Expr) : e ∈ e.nodes := by
  cases e <;> exact List.mem_cons_self ..

/-- An expression with all its places moved right by `n` bytes. -/
def shift (n : Nat) : Expr → Expr
  | number s literal => number (s.shift n) literal
  | group s inner => group (s.shift n) (inner.shift n)
  | binary s op lhs rhs => binary (s.shift n) (op.shift n) (lhs.shift n) (rhs.shift n)

@[simp] theorem shift_span (e : Expr) (n : Nat) : (e.shift n).span = e.span.shift n := by
  cases e <;> rfl

end Expr

theorem Span.join_shift (s t : Span) (n : Nat) :
    (s.join t).shift n = (s.shift n).join (t.shift n) := by
  refine Span.ext ?_ ?_
  · rw [shift_lo, join_lo, join_lo, shift_lo, shift_lo]
    omega
  · rw [shift_hi, join_hi, join_hi, shift_hi, shift_hi]
    omega

theorem Expr.combine_shift (lhs rhs : Expr) (op : Located Op) (n : Nat) :
    (lhs.combine op rhs).shift n = (lhs.shift n).combine (op.shift n) (rhs.shift n) := by
  rw [combine, combine, shift, Span.join_shift, shift_span, shift_span]

/-- Whether an expression spans from the first of some tokens to the last. -/
def Expr.Spans (e : Expr) (us : List Token) : Prop :=
  us.head?.map (·.span.lo) = some e.span.lo ∧ us.getLast?.map (·.span.hi) = some e.span.hi

/-- Tokens that stand in order, no two sharing a byte. -/
def InOrder (us : List Token) : Prop := us.Pairwise fun t u => t.span.hi ≤ u.span.lo

theorem InOrder.of_consecutive {us vs : List Token} (h : InOrder us) (hvs : vs <:+: us) :
    InOrder vs := List.Pairwise.sublist hvs.sublist h

namespace Expr.Spans

variable {e f : Expr} {us vs : List Token} {n : Nat}

theorem le_lo (he : e.Spans us) (h : ∀ t ∈ us, n ≤ t.span.lo) : n ≤ e.span.lo := by
  obtain ⟨t, ht, hlo⟩ := Option.map_eq_some_iff.mp he.1
  rw [← hlo]
  exact h t (List.mem_of_head? ht)

theorem hi_le (he : e.Spans us) (h : ∀ t ∈ us, t.span.hi ≤ n) : e.span.hi ≤ n := by
  obtain ⟨t, ht, hhi⟩ := Option.map_eq_some_iff.mp he.2
  rw [← hhi]
  exact h t (List.mem_of_getLast? ht)

/-- What spans tokens in front of others ends before what spans those begins. -/
theorem hi_le_lo (he : e.Spans us) (hf : f.Spans vs)
    (h : ∀ t ∈ us, ∀ u ∈ vs, t.span.hi ≤ u.span.lo) : e.span.hi ≤ f.span.lo :=
  he.hi_le fun t ht => hf.le_lo fun u hu => h t ht u hu

end Expr.Spans

/-- What is joined from the first token on to the last spans just that. -/
theorem Span.join_eq_of_le {s t : Span} (h : s.hi ≤ t.lo) :
    (s.join t).lo = s.lo ∧ (s.join t).hi = t.hi := by
  have := s.lo_le_hi
  have := t.lo_le_hi
  rw [join_lo, join_hi]
  omega

namespace Built

variable {l : Precedence} {e : Expr} {us : List Token}

theorem shift (h : Built l e us) (n : Nat) : Built l (e.shift n) (us.map (·.shift n)) := by
  induction h with
  | number => exact .number
  | group _ ih =>
      rw [Expr.shift, Span.join_shift, List.map_cons, List.map_append]
      exact .group ih
  | multiple _ ih =>
      rw [Expr.combine_shift, Expr.shift, Expr.shift, Span.join_shift, List.map_cons,
        List.map_cons, List.map_append]
      exact .multiple ih
  | factor _ ih => exact .factor ih
  | term _ ih => exact .term ih
  | product _ ho _ ih₁ ih₂ =>
      rw [Expr.combine_shift, List.map_append, List.map_cons]
      exact .product ih₁ ho ih₂
  | sum _ ho _ ih₁ ih₂ =>
      rw [Expr.combine_shift, List.map_append, List.map_cons]
      exact .sum ih₁ ho ih₂

/-- The nodes of two operands and their operation. -/
theorem exists_of_mem_combine {m : Precedence} {e f d : Expr} {us vs : List Token}
    {op : Located Op} {t : Token} (h : Built m (e.combine op f) (us ++ t :: vs))
    (he : ∀ d ∈ e.nodes, ∃ m ws, ws <:+: us ∧ Built m d ws)
    (hf : ∀ d ∈ f.nodes, ∃ m ws, ws <:+: vs ∧ Built m d ws) (hd : d ∈ (e.combine op f).nodes) :
    ∃ m ws, ws <:+: us ++ t :: vs ∧ Built m d ws := by
  rcases List.mem_cons.mp hd with rfl | hd
  · exact ⟨m, _, List.infix_rfl, h⟩
  rcases List.mem_append.mp hd with hd | hd
  · obtain ⟨m, ws, hws, hbuilt⟩ := he d hd
    exact ⟨m, ws, hws.trans (List.prefix_append _ _).isInfix, hbuilt⟩
  · obtain ⟨m, ws, hws, hbuilt⟩ := hf d hd
    have hsuffix : vs <:+ us ++ t :: vs := (List.suffix_cons t vs).trans (List.suffix_append us _)
    exact ⟨m, ws, hws.trans hsuffix.isInfix, hbuilt⟩

/-- The nodes of a group. -/
theorem exists_of_mem_group {o c : Span} {e d : Expr} {us : List Token} (h : Built .sum e us)
    (he : ∀ d ∈ e.nodes, ∃ m ws, ws <:+: us ∧ Built m d ws)
    (hd : d ∈ (Expr.group (o.join c) e).nodes) :
    ∃ m ws, ws <:+: ⟨.opening, o⟩ :: (us ++ [⟨.closing, c⟩]) ∧ Built m d ws := by
  rcases List.mem_cons.mp hd with rfl | hd
  · exact ⟨_, _, List.infix_rfl, .group h⟩
  · obtain ⟨m, ws, hws, hbuilt⟩ := he d hd
    exact ⟨m, ws, hws.trans ⟨[⟨.opening, o⟩], [⟨.closing, c⟩], rfl⟩, hbuilt⟩

/-- **Every node is built from consecutive tokens.** -/
theorem exists_of_mem_nodes (h : Built l e us) :
    ∀ d ∈ e.nodes, ∃ m vs, vs <:+: us ∧ Built m d vs := by
  induction h with
  | number =>
      intro d hd
      cases List.mem_singleton.mp hd
      exact ⟨_, _, List.infix_rfl, .number⟩
  | group he ih => exact fun d hd => exists_of_mem_group he ih hd
  | @multiple s o c literal e us he ih =>
      intro d hd
      rcases List.mem_cons.mp hd with rfl | hd
      · exact ⟨_, _, List.infix_rfl, .multiple he⟩
      rcases List.mem_cons.mp hd with rfl | hd
      · exact ⟨_, _, ⟨[], _, rfl⟩, .number⟩
      · obtain ⟨m, vs, hvs, hbuilt⟩ := exists_of_mem_group he ih hd
        exact ⟨m, vs, hvs.trans (List.suffix_cons _ _).isInfix, hbuilt⟩
  | factor _ ih => exact ih
  | term _ ih => exact ih
  | product he ho hf ih₁ ih₂ =>
      exact fun d hd => exists_of_mem_combine (.product he ho hf) ih₁ ih₂ hd
  | sum he ho hf ih₁ ih₂ =>
      exact fun d hd => exists_of_mem_combine (.sum he ho hf) ih₁ ih₂ hd

/-- Two operands with an operator between them span from the beginning of the one to the end of
the other. -/
theorem combine_spans {e f : Expr} {us vs : List Token} {op : Located Op} {t : Token}
    (horder : InOrder (us ++ t :: vs)) (he : e.Spans us) (hf : f.Spans vs) :
    (e.combine op f).Spans (us ++ t :: vs) := by
  have hle : e.span.hi ≤ f.span.lo := by
    refine he.hi_le_lo hf fun u hu v hv => ?_
    exact (List.pairwise_append.mp horder).2.2 u hu v (List.mem_cons_of_mem t hv)
  obtain ⟨hlo, hhi⟩ := Span.join_eq_of_le hle
  obtain ⟨u, hu, hulo⟩ := Option.map_eq_some_iff.mp he.1
  obtain ⟨v, hv, hvhi⟩ := Option.map_eq_some_iff.mp hf.2
  refine ⟨?_, ?_⟩
  · rw [List.head?_append, hu, Option.some_or, Option.map_some, hulo]
    exact congrArg some hlo.symm
  · rw [List.getLast?_append, List.getLast?_cons, hv, Option.some_or, Option.map_some,
      Option.getD_some, hvhi]
    exact congrArg some hhi.symm

/-- **An operand spans from its first token to its last.** -/
theorem spans (h : Built l e us) (horder : InOrder us) : e.Spans us := by
  induction h with
  | number => exact ⟨rfl, rfl⟩
  | @group o c e us _ _ =>
      have hle : o.hi ≤ c.lo := (List.pairwise_cons.mp horder).1 ⟨.closing, c⟩ (by simp)
      obtain ⟨hlo, hhi⟩ := Span.join_eq_of_le hle
      refine ⟨congrArg some hlo.symm, ?_⟩
      rw [← List.cons_append, List.getLast?_concat]
      exact congrArg some hhi.symm
  | @multiple s o c literal e us _ _ =>
      obtain ⟨hfirst, hgroup⟩ := List.pairwise_cons.mp horder
      have hle : o.hi ≤ c.lo := (List.pairwise_cons.mp hgroup).1 ⟨.closing, c⟩ (by simp)
      have hle' : s.hi ≤ o.lo := hfirst ⟨.opening, o⟩ (by simp)
      obtain ⟨hlo, hhi⟩ := Span.join_eq_of_le hle
      obtain ⟨hlo', hhi'⟩ := Span.join_eq_of_le (s := s) (t := o.join c) (by rw [hlo]; exact hle')
      refine ⟨congrArg some hlo'.symm, ?_⟩
      rw [← List.cons_append, ← List.cons_append, List.getLast?_concat]
      exact congrArg some (hhi'.trans hhi).symm
  | factor _ ih => exact ih horder
  | term _ ih => exact ih horder
  | product _ _ _ ih₁ ih₂ | sum _ _ _ ih₁ ih₂ =>
      have hlhs := horder.of_consecutive (List.prefix_append _ _).isInfix
      have hrhs := (horder.of_consecutive (List.suffix_append _ _).isInfix).tail
      exact combine_spans horder (ih₁ hlhs) (ih₂ hrhs)

end Built

end Calculator
