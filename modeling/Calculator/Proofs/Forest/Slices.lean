import Calculator.Proofs.Expr.Nodes
import Calculator.Proofs.Forest.Language
import Calculator.Proofs.Token.Partition

/-!
# Every node is the forest of its own text

The slice of a text that a node spans, read on its own, is a forest of one tree: that node,
moved to the beginning. Nothing of what stands around a node has a part in it, neither in
which items its slice falls into nor in how their tokens are read.
-/

namespace Calculator

namespace Formed

theorem shift {f : Forest} {ts : List Token} (h : Formed f ts) (n : Nat) :
    Formed (f.map (Expr.shift n)) (ts.map (·.shift n)) := by
  induction h with
  | nil => exact .nil
  | @cons e f us vs he hparted _ ih =>
      have hus : (us.map (Located.shift · n)).map Located.val = us.map Located.val := by simp
      have hvs : (vs.map (Located.shift · n)).map Located.val = vs.map Located.val := by simp
      rw [List.map_append]
      refine .cons (he.shift n) ?_ ih
      rw [hus, hvs]
      exact hparted

theorem unique {f g : Forest} {ts : List Token} (hf : Formed f ts) (hg : Formed g ts) : f = g := by
  have h : (.ok f : Except (Located ParseFault) Forest) = .ok g := by
    rw [← forestOf_eq_ok_iff.mpr hf, ← forestOf_eq_ok_iff.mpr hg]
  cases h
  rfl

/-- Every node of a forest is built from consecutive tokens. -/
theorem exists_of_mem_nodes {f : Forest} {ts : List Token} (h : Formed f ts) {e d : Expr}
    (he : e ∈ f) (hd : d ∈ e.nodes) : ∃ m vs, vs <:+: ts ∧ Built m d vs := by
  induction h with
  | nil => cases he
  | @cons e' f us vs hbuilt _ _ ih =>
      rcases List.mem_cons.mp he with rfl | he
      · obtain ⟨m, ws, hws, hnode⟩ := hbuilt.exists_of_mem_nodes d hd
        exact ⟨m, ws, hws.trans (List.prefix_append us vs).isInfix, hnode⟩
      · obtain ⟨m, ws, hws, hnode⟩ := ih he
        exact ⟨m, ws, hws.trans (List.suffix_append us vs).isInfix, hnode⟩

end Formed

/-- What tokens build, they build wherever they stand. -/
theorem Built.exists_shift {l : Precedence} {e : Expr} {us : List Token} {n : Nat}
    (h : Built l e (us.map (·.shift n))) : ∃ d, forestOf us = .ok [d] ∧ d.shift n = e := by
  have hsymbols : (us.map (Located.shift · n)).map Located.val = us.map Located.val := by simp
  have hderives : Derives .forest (us.map Located.val) := by
    rw [← hsymbols, ← List.append_nil (List.map _ _)]
    exact .forest_cons (.expression h.toSum.derives) .forest_nil
  obtain ⟨trees, htrees⟩ := Feed.exists_forest_of_derives hderives (Feed.endOf us)
  have hmoved : Formed (trees.map (Expr.shift n)) (us.map (·.shift n)) :=
    (forestOf_eq_ok_iff.mp htrees).shift n
  obtain ⟨d, rfl, hd⟩ := List.map_eq_singleton_iff.mp (hmoved.unique (.of_built h))
  exact ⟨d, htrees, hd⟩

theorem inOrder_tokensOf (text : String) : InOrder (tokensOf (itemsOf text)) := by
  have h : (itemsOf text).Pairwise fun i j => i.span.hi ≤ j.span.lo :=
    (tiled_itemsOf text).pairwise
  refine h.filterMap Item.token? ?_
  intro i j hij t ht u hu
  cases i with
  | notice => cases ht
  | token =>
      cases j with
      | notice => cases hu
      | token =>
          cases ht
          cases hu
          exact hij

/-- **Every node is the forest of its own text.** Where the tokens of a text form a forest, each
node spans a slice of the text, and that slice, read on its own, is a single tree: the node,
moved to the beginning. -/
theorem forestOf_node_slice {text : String} {trees : Forest}
    (h : forestOf (tokensOf (itemsOf text)) = .ok trees) :
    ∀ tree ∈ trees, ∀ e ∈ tree.nodes, ∃ part d, e.span.slice? text.toList = some part ∧
      forestOf (tokensOf (itemsOf (.ofList part))) = .ok [d] ∧ d.shift e.span.lo = e := by
  intro tree htree e he
  obtain ⟨l, us, hus, hbuilt⟩ := (forestOf_eq_ok_iff.mp h).exists_of_mem_nodes htree he
  obtain ⟨hfirst, hlast⟩ := hbuilt.spans ((inOrder_tokensOf text).of_consecutive hus)
  obtain ⟨is, js, ks, hitems, hjs, hhead, hend⟩ := exists_items_of_consecutive hbuilt.ne_nil hus
  have htiled : Tiled 0 text.toList (is ++ js ++ ks) := by
    rw [← hitems]
    exact tiled_itemsOf text
  have hlo : js.head?.map (·.span.lo) = some e.span.lo := by
    rw [hhead, Option.map_map]
    exact hfirst
  have hhi : js.getLast?.map (·.span.hi) = some e.span.hi := by
    rw [hend, Option.map_map]
    exact hlast
  obtain ⟨part, hslice, hmoved⟩ := htiled.items_slice hlo hhi
  rw [hmoved, tokensOf_map_shift] at hjs
  rw [← hjs] at hbuilt
  obtain ⟨d, hd, hshift⟩ := hbuilt.exists_shift
  exact ⟨part, d, hslice, hd, hshift⟩

/-- In `1 + 2x(3)`, the product of which the operator is not written, and with it the character
that was passed over. -/
theorem forestOf_node_slice_product :
    let group : Expr := .group (.between 6 9) (.number (.between 7 8) "3")
    let product : Expr :=
      .binary (.between 4 9) ⟨.mul, .emptyAt 6⟩ (.number (.between 4 5) "2") group
    let sum : Expr :=
      .binary (.between 0 9) ⟨.add, .between 2 3⟩ (.number (.between 0 1) "1") product
    forestOf (tokensOf (itemsOf "1 + 2x(3)")) = .ok [sum] ∧
      product.span.slice? "1 + 2x(3)".toList = some "2x(3)".toList ∧
      ∃ d, forestOf (tokensOf (itemsOf "2x(3)")) = .ok [d] ∧ d.shift 4 = product := by
  intro group product sum
  have htokens : tokensOf (itemsOf "1 + 2x(3)") =
      [⟨.number "1", .between 0 1⟩, ⟨.op .add, .between 2 3⟩, ⟨.number "2", .between 4 5⟩,
        ⟨.opening, .between 6 7⟩, ⟨.number "3", .between 7 8⟩, ⟨.closing, .between 8 9⟩] := by
    decide +kernel
  have h : forestOf (tokensOf (itemsOf "1 + 2x(3)")) = .ok [sum] := by
    rw [htokens]
    cbv
  have hproduct : product ∈ sum.nodes := by simp [sum, product, Expr.nodes]
  have hpart : product.span.slice? "1 + 2x(3)".toList = some "2x(3)".toList := by decide
  obtain ⟨part, d, hslice, hd, hshift⟩ :=
    forestOf_node_slice h sum (List.mem_singleton_self _) product hproduct
  rw [hpart] at hslice
  cases hslice
  rw [String.ofList_toList] at hd
  exact ⟨h, hpart, d, hd, hshift⟩

end Calculator
