import Calculator.Proofs.Forest.Slices
import Mathlib.Data.List.Basic

/-!
# Places nest and are in order

The place of a node is joined from the places of its operands, or of its parentheses; those of the
operands in a group are never looked at. That every node still lies within the one above it, and
beside its neighbours, comes from the tokens: a node spans the tokens it is built from, and those
stand in order.
-/

namespace Calculator

namespace Span

/-- Whether a place lies within another. -/
def Within (s t : Span) : Prop := t.lo ≤ s.lo ∧ s.hi ≤ t.hi

/-- Whether a part of a text is in parentheses and has a smaller part strictly within. -/
structure Encloses (s : Span) (text : String) (inner : Span) : Prop where
  parentheses : ∃ part, s.slice? text.toList = some ('(' :: (part ++ [')']))
  lo_lt_lo : s.lo < inner.lo
  hi_lt_hi : inner.hi < s.hi

end Span

/-- Whether an operator stands between its operands. If it is a token of the text, it stands where
that is; if not, it takes up no place, right in front of a parenthesis. -/
structure Located.Between (op : Located Op) (text : String) (lhs rhs : Span) : Prop where
  lhs_hi_le : lhs.hi ≤ op.span.lo
  le_rhs_lo : op.span.hi ≤ rhs.lo
  written : ⟨.op op.val, op.span⟩ ∈ tokensOf (itemsOf text) →
    op.span.lo < op.span.hi ∧ op.span.slice? text.toList = some [op.val.char]
  unwritten : ⟨.op op.val, op.span⟩ ∉ tokensOf (itemsOf text) →
    op.span = .emptyAt rhs.lo ∧ ∃ part, rhs.slice? text.toList = some ('(' :: part)

namespace Expr

/-- The nodes that a node is made of, from left to right. -/
def operands : Expr → List Expr
  | number .. => []
  | group _ inner => [inner]
  | binary _ _ lhs rhs => [lhs, rhs]

/-- Whether what a node consists of stands in the text as the node says. -/
def Arranged (text : String) : Expr → Prop
  | number s literal => s.slice? text.toList = some literal.toList
  | group s inner => s.Encloses text inner.span
  | binary _ op lhs rhs => op.Between text lhs.span rhs.span

end Expr

/-! ## Parts of a text -/

/-- Of two beginnings of a text, the one that takes no more bytes is the beginning of the other. -/
theorem prefix_of_byteLength_le {a b cs : List Char} (ha : a <+: cs) (hb : b <+: cs)
    (h : byteLength a ≤ byteLength b) : a <+: b := by
  rcases List.prefix_or_prefix_of_prefix ha hb with hab | ⟨c, rfl⟩
  · exact hab
  · rw [byteLength_append] at h
    have hc : c = [] := byteLength_eq_zero_iff.mp (by omega)
    exact ⟨[], by rw [hc, List.append_nil, List.append_nil]⟩

/-- What is joined of two parts of a text begins with the one and ends with the other. -/
theorem Span.slice?_join {s t : Span} {text a b : List Char} (hle : s.hi ≤ t.lo)
    (hs : s.slice? text = some a) (ht : t.slice? text = some b) :
    ∃ part, (s.join t).slice? text = some (a ++ (part ++ b)) := by
  obtain ⟨before, behind, hfirst, hslo, hshi⟩ := slice?_eq_some_iff.mp hs
  obtain ⟨front, after, hlast, htlo, hthi⟩ := slice?_eq_some_iff.mp ht
  obtain ⟨hlo, hhi⟩ := join_eq_of_le hle
  -- the first part ends before the last begins, and what is between them is text
  have hfront : before ++ a <+: front := by
    refine prefix_of_byteLength_le ⟨behind, hfirst.symm⟩ ⟨b ++ after, ?_⟩ ?_
    · rw [hlast, List.append_assoc]
    · rw [byteLength_append]
      omega
  obtain ⟨part, rfl⟩ := hfront
  refine ⟨part, slice?_eq_some_iff.mpr ⟨before, after, ?_, ?_, ?_⟩⟩
  · rw [hlast]
    simp only [List.append_assoc]
  · rw [hlo, hslo]
  · rw [hhi, ← hthi]
    simp only [byteLength_append, Nat.add_assoc]

/-- A token that is a single character stands at that. -/
theorem slice?_of_symbol {text : String} {c : Char} {v : Symbol} {s : Span}
    (hc : Symbol.ofChar? c = some v) (hv : ⟨v, s⟩ ∈ tokensOf (itemsOf text)) :
    s.slice? text.toList = some [c] := by
  rw [← toList_text_of_ofChar? hc]
  exact slice?_of_mem_tokensOf hv

/-! ## Places of nodes -/

namespace Span

theorem within_join_left (s t : Span) : s.Within (s.join t) :=
  ⟨Nat.min_le_left s.lo t.lo, Nat.le_max_left s.hi t.hi⟩

theorem within_join_right (s t : Span) : t.Within (s.join t) :=
  ⟨Nat.min_le_right s.lo t.lo, Nat.le_max_right s.hi t.hi⟩

end Span

/-- A token lies within what spans it and others. -/
theorem Expr.Spans.within_of_mem {e : Expr} {us : List Token} (he : e.Spans us)
    (horder : InOrder us) {t : Token} (ht : t ∈ us) : t.span.Within e.span := by
  obtain ⟨u, hu, hlo⟩ := Option.map_eq_some_iff.mp he.1
  obtain ⟨v, hv, hhi⟩ := Option.map_eq_some_iff.mp he.2
  have := u.span.lo_le_hi
  have := v.span.lo_le_hi
  -- no token begins before the first, and none ends behind the last
  refine ⟨?_, ?_⟩
  · rw [← hlo]
    obtain ⟨ts, rfl⟩ := List.head?_eq_some_iff.mp hu
    rcases List.mem_cons.mp ht with rfl | ht
    · exact Nat.le_refl _
    · have := (List.pairwise_cons.mp horder).1 t ht
      omega
  · rw [← hhi]
    obtain ⟨ts, rfl⟩ := List.getLast?_eq_some_iff.mp hv
    rcases List.mem_append.mp ht with ht | ht
    · have := (List.pairwise_append.mp horder).2.2 t ht v (List.mem_singleton_self v)
      omega
    · cases List.mem_singleton.mp ht
      exact Nat.le_refl _

section

variable {text : String} {us vs : List Token}

/-- A pair of parentheses encloses what is built from the tokens in between. -/
theorem Span.encloses_of_consecutive {o c : Span} {e : Expr} (he : e.Spans us)
    (hus : ⟨.opening, o⟩ :: (us ++ [⟨.closing, c⟩]) <:+: tokensOf (itemsOf text)) :
    o.hi ≤ c.lo ∧ (o.join c).Encloses text e.span := by
  have horder : InOrder (⟨.opening, o⟩ :: (us ++ [⟨.closing, c⟩])) :=
    (inOrder_tokensOf text).of_consecutive hus
  obtain ⟨hopening, hinner⟩ := List.pairwise_cons.mp horder
  have hclosing := (List.pairwise_append.mp hinner).2.2
  have ho : ⟨.opening, o⟩ ∈ tokensOf (itemsOf text) := hus.mem (List.mem_cons_self ..)
  have hc : ⟨.closing, c⟩ ∈ tokensOf (itemsOf text) := hus.mem (by simp)
  have hlo : o.hi ≤ e.span.lo := he.le_lo fun t ht => hopening t (List.mem_append_left _ ht)
  have hhi : e.span.hi ≤ c.lo := he.hi_le fun t ht => hclosing t ht _ (List.mem_singleton_self _)
  have hle : o.hi ≤ c.lo := hopening ⟨.closing, c⟩ (by simp)
  have holen : o.lo < o.hi := lo_lt_hi_of_mem_tokensOf ho
  have hclen : c.lo < c.hi := lo_lt_hi_of_mem_tokensOf hc
  obtain ⟨hjoin, hjoin'⟩ := join_eq_of_le hle
  have hos : o.slice? text.toList = some ['('] := slice?_of_symbol rfl ho
  have hcs : c.slice? text.toList = some [')'] := slice?_of_symbol rfl hc
  obtain ⟨part, hpart⟩ := slice?_join hle hos hcs
  exact ⟨hle, ⟨part, hpart⟩, by omega, by omega⟩

/-- An operator that is a token stands between what is built from the tokens to both its sides. -/
theorem Located.between_of_consecutive {o : Op} {s : Span} {e f : Expr} (he : e.Spans us)
    (hf : f.Spans vs) (hus : us ++ ⟨.op o, s⟩ :: vs <:+: tokensOf (itemsOf text)) :
    (Located.mk o s).Between text e.span f.span := by
  have horder : InOrder (us ++ ⟨.op o, s⟩ :: vs) := (inOrder_tokensOf text).of_consecutive hus
  obtain ⟨-, hbehind, hfront⟩ := List.pairwise_append.mp horder
  have hop : ⟨.op o, s⟩ ∈ tokensOf (itemsOf text) := hus.mem (by simp)
  refine ⟨?_, ?_, ?_, fun hnot => absurd hop hnot⟩
  · exact he.hi_le fun t ht => hfront t ht _ (List.mem_cons_self ..)
  · exact hf.le_lo fun t ht => (List.pairwise_cons.mp hbehind).1 t ht
  · intro _
    exact ⟨lo_lt_hi_of_mem_tokensOf hop, slice?_of_symbol o.ofChar?_char hop⟩

namespace Built

variable {l : Precedence} {e : Expr}

/-- **What a node consists of stands where the node says.** -/
theorem arranged (h : Built l e us) (hus : us <:+: tokensOf (itemsOf text)) :
    e.Arranged text := by
  -- only what a node is made of at the top is looked at: no operand has to be arranged itself
  have horder : InOrder us := (inOrder_tokensOf text).of_consecutive hus
  induction h with
  | number => exact slice?_of_mem_tokensOf (hus.mem (List.mem_singleton_self _))
  | @group o c e us he _ =>
      have hinner : us <:+: ⟨.opening, o⟩ :: (us ++ [⟨.closing, c⟩]) := ⟨[_], [_], rfl⟩
      exact (Span.encloses_of_consecutive (he.spans (horder.of_consecutive hinner)) hus).2
  | @multiple s o c literal e us he _ =>
      have hgroup : ⟨.opening, o⟩ :: (us ++ [⟨.closing, c⟩]) <:+: tokensOf (itemsOf text) :=
        (List.suffix_cons _ _).isInfix.trans hus
      have hinner : us <:+: ⟨.opening, o⟩ :: (us ++ [⟨.closing, c⟩]) := ⟨[_], [_], rfl⟩
      obtain ⟨hle, ⟨part, hpart⟩, -, -⟩ := Span.encloses_of_consecutive
        (he.spans ((inOrder_tokensOf text).of_consecutive (hinner.trans hgroup))) hgroup
      have hlo : (o.join c).lo = o.lo := (Span.join_eq_of_le hle).1
      have hnumber : s.hi ≤ o.lo := (List.pairwise_cons.mp horder).1 ⟨.opening, o⟩ (by simp)
      refine ⟨hnumber, Nat.le_of_eq hlo.symm, ?_, ?_⟩
      · -- a token takes up some place, and this operator takes up none
        intro hop
        exact absurd (lo_lt_hi_of_mem_tokensOf hop) (Nat.lt_irrefl o.lo)
      · intro _
        exact ⟨congrArg Span.emptyAt hlo.symm, _, hpart⟩
  | factor _ ih => exact ih hus horder
  | term _ ih => exact ih hus horder
  | product he _ hf | sum he _ hf =>
      have hlhs := horder.of_consecutive (List.prefix_append _ _).isInfix
      have hrhs := (horder.of_consecutive (List.suffix_append _ _).isInfix).tail
      exact Located.between_of_consecutive (he.spans hlhs) (hf.spans hrhs) hus

/-- **The operands of a node lie within it.** -/
theorem operands_within (h : Built l e us) (hus : us <:+: tokensOf (itemsOf text)) :
    ∀ d ∈ e.operands, d.span.Within e.span := by
  induction h with
  | number => exact List.forall_mem_nil _
  | group he _ =>
      obtain ⟨-, hlo, hhi⟩ := (Built.group he).arranged hus
      exact List.forall_mem_singleton.mpr ⟨Nat.le_of_lt hlo, Nat.le_of_lt hhi⟩
  | factor _ ih => exact ih hus
  | term _ ih => exact ih hus
  | multiple | product | sum =>
      exact List.forall_mem_cons.mpr ⟨Span.within_join_left _ _,
        List.forall_mem_singleton.mpr (Span.within_join_right _ _)⟩

theorem lo_lt_hi (h : Built l e us) (hus : us <:+: tokensOf (itemsOf text)) :
    e.span.lo < e.span.hi := by
  have horder : InOrder us := (inOrder_tokensOf text).of_consecutive hus
  obtain ⟨t, ts, rfl, -⟩ := h.exists_begins
  have ht : t ∈ t :: ts := List.mem_cons_self ..
  obtain ⟨hlo, hhi⟩ := (h.spans horder).within_of_mem horder ht
  have := lo_lt_hi_of_mem_tokensOf (hus.mem ht)
  omega

end Built

end

/-- Every tree of a forest is built from consecutive tokens. -/
theorem Formed.exists_of_mem {f : Forest} {ts : List Token} (h : Formed f ts) {e : Expr}
    (he : e ∈ f) : ∃ m vs, vs <:+: ts ∧ Built m e vs :=
  h.exists_of_mem_nodes he e.mem_nodes_self

/-- **The trees of a forest stand in order**, and no two share a byte. -/
theorem Formed.pairwise {f : Forest} {ts : List Token} (h : Formed f ts) (horder : InOrder ts) :
    f.Pairwise fun d e => d.span.hi ≤ e.span.lo := by
  induction h with
  | nil => exact .nil
  | @cons e f us vs he _ hf ih =>
      obtain ⟨hus, hvs, hapart⟩ := List.pairwise_append.mp horder
      refine List.pairwise_cons.mpr ⟨fun d hd => ?_, ih hvs⟩
      obtain ⟨m, ws, hws, hd⟩ := hf.exists_of_mem hd
      refine (he.spans hus).hi_le_lo (hd.spans (InOrder.of_consecutive hvs hws)) ?_
      exact fun t ht u hu => hapart t ht u (hws.mem hu)

/-- **Places nest and are in order.** Where the tokens of a text form a forest, each node spans the
tokens it is built from, has its operands within it, and holds its operator or its parentheses where
the text has them; and the trees stand one behind the other, none of them empty. -/
theorem forestOf_places {text : String} {trees : Forest}
    (h : forestOf (tokensOf (itemsOf text)) = .ok trees) :
    (∀ tree ∈ trees, ∀ e ∈ tree.nodes,
      (∃ l us, us <:+: tokensOf (itemsOf text) ∧ Built l e us ∧ e.Spans us) ∧
        (∀ d ∈ e.operands, d.span.Within e.span) ∧ e.Arranged text) ∧
      (∀ tree ∈ trees, tree.span.lo < tree.span.hi) ∧
      trees.Pairwise fun d e => d.span.hi ≤ e.span.lo := by
  have hformed : Formed trees (tokensOf (itemsOf text)) := forestOf_eq_ok_iff.mp h
  have horder : InOrder (tokensOf (itemsOf text)) := inOrder_tokensOf text
  refine ⟨?_, ?_, hformed.pairwise horder⟩
  · intro tree htree e he
    obtain ⟨l, us, hus, hbuilt⟩ := hformed.exists_of_mem_nodes htree he
    exact ⟨⟨l, us, hus, hbuilt, hbuilt.spans (horder.of_consecutive hus)⟩,
      hbuilt.operands_within hus, hbuilt.arranged hus⟩
  · intro tree htree
    obtain ⟨l, us, hus, hbuilt⟩ := hformed.exists_of_mem htree
    exact hbuilt.lo_lt_hi hus

/-- In `(1 + 2(3)) 4`, a sum in parentheses of which one operand is a product, and a number. -/
theorem forestOf_places_group_beside_number :
    let product : Expr := .binary (.between 5 9) ⟨.mul, .emptyAt 6⟩ (.number (.between 5 6) "2")
      (.group (.between 6 9) (.number (.between 7 8) "3"))
    let sum : Expr :=
      .binary (.between 1 9) ⟨.add, .between 3 4⟩ (.number (.between 1 2) "1") product
    let group : Expr := .group (.between 0 10) sum
    let four : Expr := .number (.between 11 12) "4"
    forestOf (tokensOf (itemsOf "(1 + 2(3)) 4")) = .ok [group, four] ∧
      sum.span.Within group.span ∧ group.Arranged "(1 + 2(3)) 4" ∧ sum.Arranged "(1 + 2(3)) 4" ∧
      product.Arranged "(1 + 2(3)) 4" ∧ group.span.hi ≤ four.span.lo := by
  intro product sum group four
  have h : forestOf (tokensOf (itemsOf "(1 + 2(3)) 4")) = .ok [group, four] := by decide +kernel
  obtain ⟨hnodes, -, hordered⟩ := forestOf_places h
  have hnode := hnodes group (List.mem_cons_self ..)
  have hgroup : group ∈ group.nodes := by decide
  have hsum : sum ∈ group.nodes := by decide
  have hproduct : product ∈ group.nodes := by decide
  obtain ⟨-, hoperands, harranged⟩ := hnode group hgroup
  have hwithin : sum.span.Within group.span := hoperands sum (List.mem_singleton_self sum)
  have hapart : group.span.hi ≤ four.span.lo :=
    (List.pairwise_cons.mp hordered).1 four (List.mem_singleton_self four)
  exact ⟨h, hwithin, harranged, (hnode sum hsum).2.2, (hnode product hproduct).2.2, hapart⟩

end Calculator
