import Calculator.Proofs.Expr.Built

/-!
# Expressions and the symbols they are written with

`Expr.symbols` writes an expression down in order. What comes out determines the expression
only if the tree respects precedence, groups to the left, and leaves out an operator only
between a number and a group: such a tree is canonical. The trees that tokens build are
canonical and are written with the symbols of those tokens, and every canonical tree is
built from the tokens it is written with, but for its places.
-/

namespace Calculator

/-- Whether an operator is not written. It is that of a product, and takes up no place. -/
def Located.isImplicit (op : Located Op) : Bool := op.val == .mul && op.span.isEmpty

/-- Whether every operator takes up some place. -/
def OperatorsPlaced (ts : List Token) : Prop :=
  ∀ t ∈ ts, ∀ o, t.val = .op o → t.span.isEmpty = false

namespace Expr

/-- The symbols of an expression as it is written. -/
def symbols : Expr → List Symbol
  | number _ literal => [.number literal]
  | group _ inner => .opening :: (inner.symbols ++ [.closing])
  | binary _ op lhs rhs =>
      lhs.symbols ++ (if op.isImplicit then [] else [.op op.val]) ++ rhs.symbols

/-- How tightly an expression holds together. -/
def precedence : Expr → Precedence
  | number .. => .atom
  | group .. => .atom
  | binary _ op _ _ => if op.isImplicit then .atom else op.val.precedence

/-- Whether two operands fit an operator. -/
def Fits (op : Located Op) (lhs rhs : Expr) : Prop :=
  if op.isImplicit then
    (∃ s literal, lhs = number s literal) ∧ ∃ s inner, rhs = group s inner
  else if op.val.isAdditive then
    rhs.precedence ≠ .sum
  else
    lhs.precedence ≠ .sum ∧ rhs.precedence = .atom

/-- Whether the operands fit at every operator. -/
def Canonical : Expr → Prop
  | number .. => True
  | group _ inner => inner.Canonical
  | binary _ op lhs rhs => lhs.Canonical ∧ rhs.Canonical ∧ Fits op lhs rhs

/-- The operators of an expression, in order. -/
def operators : Expr → List (Located Op)
  | number .. => []
  | group _ inner => inner.operators
  | binary _ op lhs rhs => lhs.operators ++ op :: rhs.operators

/-- An expression without its places. -/
def eraseSpans : Expr → Expr
  | number _ literal => number default literal
  | group _ inner => group default inner.eraseSpans
  | binary _ op lhs rhs => binary default ⟨op.val, default⟩ lhs.eraseSpans rhs.eraseSpans

/-- The tree `d` is `e` but for its places, and the operators of `d` that take up no place
are those that are not written in `e`. -/
structure Renders (d e : Expr) : Prop where
  tree : d.eraseSpans = e.eraseSpans
  implicit : d.operators.map (·.span.isEmpty) = e.operators.map Located.isImplicit

end Expr

/-- Whether an operand of one precedence can stand where another is due. -/
def Precedence.Admits : Precedence → Precedence → Prop
  | sum, _ => True
  | product, p => p ≠ .sum
  | atom, p => p = .atom

/-- An atom can stand wherever an operand is due. -/
theorem Precedence.admits_atom (l : Precedence) : l.Admits .atom := by
  cases l with
  | atom => exact rfl
  | product =>
      intro h
      cases h
  | sum => exact trivial

theorem isImplicit_of_placed {o : Op} {s : Span} (h : s.isEmpty = false) :
    Located.isImplicit ⟨o, s⟩ = false := by
  simp [Located.isImplicit, h]

theorem isImplicit_emptyAt (p : Nat) : Located.isImplicit ⟨.mul, .emptyAt p⟩ = true := by
  simp [Located.isImplicit]

theorem val_of_isImplicit {op : Located Op} (h : op.isImplicit = true) : op.val = .mul := by
  simp only [Located.isImplicit, Bool.and_eq_true, beq_iff_eq] at h
  exact h.1

theorem Expr.fits_of_implicit {op : Located Op} {lhs rhs : Expr} (h : op.isImplicit = true) :
    Fits op lhs rhs ↔
      (∃ s literal, lhs = .number s literal) ∧ ∃ s inner, rhs = .group s inner := by
  simp [Fits, h]

theorem Expr.fits_of_sum {op : Located Op} {lhs rhs : Expr} (h : op.isImplicit = false)
    (ho : op.val.precedence = .sum) : Fits op lhs rhs ↔ rhs.precedence ≠ .sum := by
  simp [Fits, h, Op.isAdditive_iff_precedence.2 ho]

theorem Expr.fits_of_product {op : Located Op} {lhs rhs : Expr} (h : op.isImplicit = false)
    (ho : op.val.precedence = .product) :
    Fits op lhs rhs ↔ lhs.precedence ≠ .sum ∧ rhs.precedence = .atom := by
  simp [Fits, h, Op.isAdditive_iff_precedence, ho]

theorem OperatorsPlaced.append {us vs : List Token} (h : OperatorsPlaced (us ++ vs)) :
    OperatorsPlaced us ∧ OperatorsPlaced vs := List.forall_mem_append.1 h

theorem OperatorsPlaced.tail {t : Token} {ts : List Token} (h : OperatorsPlaced (t :: ts)) :
    OperatorsPlaced ts := (List.forall_mem_cons.1 h).2

theorem OperatorsPlaced.head {o : Op} {s : Span} {ts : List Token}
    (h : OperatorsPlaced (⟨.op o, s⟩ :: ts)) : s.isEmpty = false :=
  (List.forall_mem_cons.1 h).1 o rfl

/-! ## What is built is canonical -/

namespace Built

/-- An operand that is built is written with the symbols of its tokens. -/
theorem symbols_eq {l : Precedence} {e : Expr} {us : List Token} (h : Built l e us)
    (hus : OperatorsPlaced us) : e.symbols = us.map Located.val := by
  induction h with
  | number => rfl
  | group _ ih => simp [Expr.symbols, ih hus.tail.append.1]
  | multiple _ ih =>
      simp [Expr.combine, Expr.symbols, isImplicit_emptyAt, ih hus.tail.tail.append.1]
  | factor _ ih => exact ih hus
  | term _ ih => exact ih hus
  | product _ _ _ ih₁ ih₂ | sum _ _ _ ih₁ ih₂ =>
      obtain ⟨hus, hvs⟩ := hus.append
      simp [Expr.combine, Expr.symbols, isImplicit_of_placed hvs.head, ih₁ hus, ih₂ hvs.tail]

/-- An operand that is built is canonical, and stands where it may. -/
theorem canonical {l : Precedence} {e : Expr} {us : List Token} (h : Built l e us)
    (hus : OperatorsPlaced us) : e.Canonical ∧ l.Admits e.precedence := by
  induction h with
  | number => exact ⟨trivial, rfl⟩
  | group _ ih => exact ⟨(ih hus.tail.append.1).1, rfl⟩
  | multiple _ ih =>
      refine ⟨⟨trivial, (ih hus.tail.tail.append.1).1, ?_⟩, ?_⟩
      · exact (Expr.fits_of_implicit (isImplicit_emptyAt _)).2 ⟨⟨_, _, rfl⟩, _, _, rfl⟩
      · exact if_pos (isImplicit_emptyAt _)
  | factor _ ih =>
      obtain ⟨hcanonical, hatom⟩ := ih hus
      refine ⟨hcanonical, ?_⟩
      intro hsum
      rw [show _ = Precedence.atom from hatom] at hsum
      cases hsum
  | term _ ih => exact ⟨(ih hus).1, trivial⟩
  | @product s o e f us vs _ ho _ ih₁ ih₂ =>
      obtain ⟨hus, hvs⟩ := hus.append
      have himplicit : Located.isImplicit ⟨o, s⟩ = false := isImplicit_of_placed hvs.head
      obtain ⟨he, hlhs⟩ := ih₁ hus
      obtain ⟨hf, hrhs⟩ := ih₂ hvs.tail
      refine ⟨⟨he, hf, (Expr.fits_of_product himplicit ho).2 ⟨hlhs, hrhs⟩⟩, ?_⟩
      simp [Precedence.Admits, Expr.combine, Expr.precedence, himplicit, ho]
  | @sum s o e f us vs _ ho _ ih₁ ih₂ =>
      obtain ⟨hus, hvs⟩ := hus.append
      have himplicit : Located.isImplicit ⟨o, s⟩ = false := isImplicit_of_placed hvs.head
      obtain ⟨he, -⟩ := ih₁ hus
      obtain ⟨hf, hrhs⟩ := ih₂ hvs.tail
      exact ⟨⟨he, hf, (Expr.fits_of_sum himplicit ho).2 hrhs⟩, trivial⟩

/-- Of the operators of an operand that is built, exactly those that are not written take
up no place. -/
theorem isEmpty_eq_isImplicit {l : Precedence} {e : Expr} {us : List Token} (h : Built l e us)
    (hus : OperatorsPlaced us) : ∀ op ∈ e.operators, op.span.isEmpty = op.isImplicit := by
  induction h with
  | number => exact List.forall_mem_nil _
  | group _ ih => exact ih hus.tail.append.1
  | @multiple s o c literal e us _ ih =>
      have hop : (Span.emptyAt o.lo).isEmpty = Located.isImplicit ⟨.mul, .emptyAt o.lo⟩ := by
        rw [isImplicit_emptyAt, Span.isEmpty_emptyAt]
      exact List.forall_mem_cons.2 ⟨hop, ih hus.tail.tail.append.1⟩
  | factor _ ih => exact ih hus
  | term _ ih => exact ih hus
  | @product s o e f us vs _ _ _ ih₁ ih₂ | @sum s o e f us vs _ _ _ ih₁ ih₂ =>
      obtain ⟨hus, hvs⟩ := hus.append
      have hop : s.isEmpty = Located.isImplicit ⟨o, s⟩ := by
        rw [isImplicit_of_placed hvs.head, hvs.head]
      exact List.forall_mem_append.2 ⟨ih₁ hus, List.forall_mem_cons.2 ⟨hop, ih₂ hvs.tail⟩⟩

theorem lift {l m : Precedence} {e : Expr} {us : List Token} (h : Built l e us)
    (hm : m.Admits l) : Built m e us := by
  cases m with
  | sum => exact h.toSum
  | product =>
      cases l with
      | sum => exact absurd rfl hm
      | product => exact h
      | atom => exact .factor h
  | atom =>
      cases hm
      exact h

end Built

/-! ## What is canonical is built -/

namespace Expr

theorem Renders.exists_group {d inner : Expr} {s : Span} (h : d.Renders (.group s inner)) :
    ∃ t inner', d = .group t inner' ∧ inner'.Renders inner := by
  obtain ⟨htree, himplicit⟩ := h
  cases d with
  | number => cases htree
  | binary => cases htree
  | group t inner' =>
      refine ⟨t, inner', rfl, ?_, himplicit⟩
      simpa [eraseSpans] using htree

theorem Renders.combine {d e d' e' : Expr} {op op' : Located Op} {s : Span}
    (h₁ : d.Renders e) (h₂ : d'.Renders e') (hval : op.val = op'.val)
    (himplicit : op.span.isEmpty = op'.isImplicit) :
    (d.combine op d').Renders (.binary s op' e e') := by
  refine ⟨?_, ?_⟩
  · simp [Expr.combine, eraseSpans, h₁.tree, h₂.tree, hval]
  · simp [Expr.combine, operators, h₁.implicit, h₂.implicit, himplicit]

/-- **Every canonical tree is built** from the tokens it is written with, but for its
places. -/
theorem Canonical.exists_built {e : Expr} (he : e.Canonical) {us : List Token}
    (hus : us.map Located.val = e.symbols) (hplaced : OperatorsPlaced us) :
    ∃ d, Built e.precedence d us ∧ d.Renders e := by
  induction e generalizing us with
  | number s literal =>
      obtain ⟨t, vs, rfl, hvs⟩ := exists_cons_of_map hus
      cases List.map_eq_nil_iff.1 hvs
      exact ⟨_, .number, rfl, rfl⟩
  | group s inner ih =>
      obtain ⟨o, c, vs, rfl, hvs⟩ := exists_group_of_map hus
      obtain ⟨d, hd, htree, himplicit⟩ := ih he hvs hplaced.tail.append.1
      refine ⟨_, .group hd.toSum, ?_, himplicit⟩
      simp [eraseSpans, htree]
  | binary s op lhs rhs ih₁ ih₂ =>
      obtain ⟨hlhs, hrhs, hfits⟩ := he
      cases himplicit : op.isImplicit with
      | true =>
          obtain ⟨⟨s₁, literal, rfl⟩, s₂, inner, rfl⟩ := (fits_of_implicit himplicit).1 hfits
          simp only [symbols, himplicit, precedence, if_true, List.append_nil] at hus ⊢
          obtain ⟨t, vs, rfl, hvs⟩ := exists_cons_of_map hus
          obtain ⟨d, hd, hrenders⟩ := ih₂ hrhs hvs hplaced.tail
          -- the group was built on its own; with the number it is built in one piece
          obtain ⟨t', inner', rfl, -⟩ := hrenders.exists_group
          have hgroup : Built .atom (.group t' inner') vs := hd
          cases hgroup with
          | group hinner =>
              refine ⟨_, .multiple hinner, ?_⟩
              have hnumber : (Expr.number t literal).Renders (.number s₁ literal) := ⟨rfl, rfl⟩
              refine hnumber.combine hrenders (val_of_isImplicit himplicit).symm ?_
              rw [himplicit, Span.isEmpty_emptyAt]
      | false =>
          simp only [symbols, himplicit, precedence, Bool.false_eq_true, if_false,
            List.append_assoc] at hus ⊢
          obtain ⟨xs, ws, rfl, hxs, hws⟩ := List.map_eq_append_iff.1 hus
          obtain ⟨t, vs, rfl, hvs⟩ := exists_cons_of_map hws
          obtain ⟨hplaced₁, hplaced₂⟩ := hplaced.append
          obtain ⟨d, hd, hlhs'⟩ := ih₁ hlhs hxs hplaced₁
          obtain ⟨d', hd', hrhs'⟩ := ih₂ hrhs hvs hplaced₂.tail
          have hrenders : (d.combine ⟨op.val, t⟩ d').Renders (.binary s op lhs rhs) :=
            hlhs'.combine hrhs' rfl (hplaced₂.head.trans himplicit.symm)
          rcases op.val.precedence_eq with ho | ho
          · obtain ⟨hl, hr⟩ := (fits_of_product himplicit ho).1 hfits
            rw [ho]
            exact ⟨_, .product (hd.lift hl) ho (hd'.lift hr), hrenders⟩
          · have hr := (fits_of_sum himplicit ho).1 hfits
            rw [ho]
            exact ⟨_, .sum hd.toSum ho (hd'.lift hr), hrenders⟩

end Expr

end Calculator
