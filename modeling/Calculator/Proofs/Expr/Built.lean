import Calculator.Expr
import Calculator.Proofs.Grammar

/-!
# Which tokens an expression is built from

`Built l e us` says that the tokens `us` make the expression `e`, its places included, as
an operand of precedence `l`. It follows the rules for precedence and for grouping to the
left, and nothing else: how an expression is read plays no part in it. It is a grammar
with its trees, so what holds of all that is built is shown by one induction.
-/

namespace Calculator

/-- How tightly an operand holds together. -/
inductive Precedence
  /-- A number, a group, or a number in front of a group. -/
  | atom
  /-- Atoms with `*` and `/` between them. -/
  | product
  /-- Products with `+` and `-` between them. -/
  | sum
deriving DecidableEq

/-- What an operation makes of its operands. -/
def Op.precedence : Op → Precedence
  | add | sub => .sum
  | mul | div => .product

/-- What the grammar calls the operands of a precedence. -/
def Precedence.category : Precedence → Category
  | atom => .atom
  | product => .multiplicative
  | sum => .additive

/-- The expression of a precedence that tokens make. -/
inductive Built : Precedence → Expr → List Token → Prop
  | number {s : Span} {literal : String} :
      Built .atom (.number s literal) [⟨.number literal, s⟩]
  | group {o c : Span} {e : Expr} {us : List Token} (he : Built .sum e us) :
      Built .atom (.group (o.join c) e) (⟨.opening, o⟩ :: (us ++ [⟨.closing, c⟩]))
  | multiple {s o c : Span} {literal : String} {e : Expr} {us : List Token}
      (he : Built .sum e us) :
      Built .atom
        ((Expr.number s literal).combine ⟨.mul, .emptyAt o.lo⟩ (.group (o.join c) e))
        (⟨.number literal, s⟩ :: ⟨.opening, o⟩ :: (us ++ [⟨.closing, c⟩]))
  | factor {e : Expr} {us : List Token} (he : Built .atom e us) : Built .product e us
  | product {s : Span} {o : Op} {e f : Expr} {us vs : List Token} (he : Built .product e us)
      (ho : o.precedence = .product) (hf : Built .atom f vs) :
      Built .product (e.combine ⟨o, s⟩ f) (us ++ ⟨.op o, s⟩ :: vs)
  | term {e : Expr} {us : List Token} (he : Built .product e us) : Built .sum e us
  | sum {s : Span} {o : Op} {e f : Expr} {us vs : List Token} (he : Built .sum e us)
      (ho : o.precedence = .sum) (hf : Built .product f vs) :
      Built .sum (e.combine ⟨o, s⟩ f) (us ++ ⟨.op o, s⟩ :: vs)

/-- Whether the last symbol is a number. -/
def EndsInNumber (u : List Symbol) : Prop := ∃ literal, u.getLast? = some (.number literal)

/-- The symbols `v` behind those of an expression `u` do not go on with it. -/
def Parted (u v : List Symbol) : Prop :=
  ∀ s ∈ v.head?, (∀ o, s ≠ .op o) ∧ (s = .opening → ¬ EndsInNumber u)

theorem Op.precedence_eq (o : Op) : o.precedence = .product ∨ o.precedence = .sum := by
  cases o <;> simp [precedence]

theorem Op.isAdditive_iff_precedence {o : Op} : o.isAdditive = true ↔ o.precedence = .sum := by
  cases o <;> decide

theorem Op.isMultiplicative_iff_precedence {o : Op} :
    o.isMultiplicative = true ↔ o.precedence = .product := by
  cases o <;> decide

theorem exists_cons_of_map {ts : List Token} {v : Symbol} {u : List Symbol}
    (h : ts.map Located.val = v :: u) : ∃ s vs, ts = ⟨v, s⟩ :: vs ∧ vs.map Located.val = u := by
  obtain ⟨⟨v, s⟩, vs, rfl, rfl, hvs⟩ := List.map_eq_cons_iff.1 h
  exact ⟨s, vs, rfl, hvs⟩

theorem exists_group_of_map {ts : List Token} {u : List Symbol}
    (h : ts.map Located.val = .opening :: (u ++ [.closing])) :
    ∃ o c us, ts = ⟨.opening, o⟩ :: (us ++ [⟨.closing, c⟩]) ∧ us.map Located.val = u := by
  obtain ⟨o, vs, rfl, hvs⟩ := exists_cons_of_map h
  obtain ⟨us, ws, rfl, hus, hws⟩ := List.map_eq_append_iff.1 hvs
  obtain ⟨c, xs, rfl, hxs⟩ := exists_cons_of_map hws
  cases List.map_eq_nil_iff.1 hxs
  exact ⟨o, c, us, rfl, hus⟩

theorem endsInNumber_append {u v : List Symbol} (hv : v ≠ []) :
    EndsInNumber (u ++ v) ↔ EndsInNumber v := by
  rw [EndsInNumber, EndsInNumber, List.getLast?_append, List.getLast?_eq_some_getLast hv,
    Option.some_or]

theorem not_endsInNumber_snoc (u : List Symbol) {s : Symbol} (hs : ∀ literal, s ≠ .number literal) :
    ¬ EndsInNumber (u ++ [s]) := by
  simp [EndsInNumber, hs]

@[simp] theorem parted_nil (u : List Symbol) : Parted u [] := by
  simp [Parted]

theorem Parted.of_append {u v w : List Symbol} (h : Parted u (v ++ w)) : Parted u v := by
  cases v with
  | nil => exact parted_nil u
  | cons s v => exact h

theorem Parted.append_left {u v w : List Symbol} (h : Parted v w) (hv : v ≠ []) :
    Parted (u ++ v) w := by
  intro s hs
  rw [endsInNumber_append hv]
  exact h s hs

namespace Built

theorem toSum {l : Precedence} {e : Expr} {us : List Token} (h : Built l e us) :
    Built .sum e us := by
  cases l with
  | atom => exact .term (.factor h)
  | product => exact .term h
  | sum => exact h

/-- What tokens make, the grammar derives. -/
theorem derives {l : Precedence} {e : Expr} {us : List Token} (h : Built l e us) :
    Derives l.category (us.map Located.val) := by
  induction h with
  | number => exact .number
  | group _ ih => simpa [Precedence.category] using Derives.group (.expression ih)
  | multiple _ ih => simpa [Precedence.category] using Derives.multiple (.expression ih)
  | factor _ ih => exact ih.multiplicative_of_atom
  | product _ ho _ ih₁ ih₂ =>
      rw [List.map_append]
      exact ih₁.multiplicative_snoc (Op.isMultiplicative_iff_precedence.2 ho) ih₂
  | term _ ih => exact ih.additive_of_multiplicative
  | sum _ ho _ ih₁ ih₂ =>
      rw [List.map_append]
      exact ih₁.additive_snoc (Op.isAdditive_iff_precedence.2 ho) ih₂

/-- The first token of an operand is a number or an opening parenthesis. -/
theorem exists_begins {l : Precedence} {e : Expr} {us : List Token} (h : Built l e us) :
    ∃ t vs, us = t :: vs ∧ t.val.begins = true := by
  obtain ⟨s, v, hus, hs⟩ := h.derives.exists_begins (by cases l <;> decide)
  obtain ⟨t, vs, rfl, rfl, -⟩ := List.map_eq_cons_iff.1 hus
  exact ⟨t, vs, rfl, hs⟩

theorem ne_nil {l : Precedence} {e : Expr} {us : List Token} (h : Built l e us) : us ≠ [] := by
  obtain ⟨t, vs, rfl, -⟩ := h.exists_begins
  exact List.cons_ne_nil t vs

/-- Of the atoms, exactly the bare numbers end in a number. -/
theorem endsInNumber_iff {e : Expr} {us : List Token} (h : Built .atom e us) :
    EndsInNumber (us.map Located.val) ↔ ∃ s literal, e = .number s literal := by
  cases h with
  | @number s literal => exact iff_of_true ⟨literal, rfl⟩ ⟨s, literal, rfl⟩
  | @group o c e us =>
      refine iff_of_false ?_ (by simp)
      simpa using not_endsInNumber_snoc (.opening :: us.map Located.val) (s := .closing) (by simp)
  | @multiple s o c literal e us =>
      refine iff_of_false ?_ (by simp [Expr.combine])
      simpa using not_endsInNumber_snoc
        (.number literal :: .opening :: us.map Located.val) (s := .closing) (by simp)

end Built

end Calculator
