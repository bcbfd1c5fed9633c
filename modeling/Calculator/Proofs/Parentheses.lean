import Calculator.Proofs.Expr.Replacing
import Calculator.Proofs.Forest.Slices
import Calculator.Proofs.Token.Joining
import Calculator.Proofs.Verdict

/-!
# Redundant parentheses

A node can be put in parentheses where it stands in the text. The text falls into the same symbols
as before with the two parentheses among them, and these make a group of the node in its place; so
neither the value of the text nor what is wrong with it is another.
-/

namespace Calculator

/-- A text with a character put in behind its first `n` bytes, if a character ends there. -/
def insertAt? (n : Nat) (c : Char) (text : List Char) : Option (List Char) :=
  (splitBytes? n text).map fun (before, after) => before ++ c :: after

/-- A text with parentheses put in around a part of it. -/
def Span.enclose? (s : Span) (text : String) : Option String := do
  let closed ← insertAt? s.hi ')' text.toList
  let enclosed ← insertAt? s.lo '(' closed
  return .ofList enclosed

theorem insertAt?_append {n : Nat} {before after : List Char} (c : Char)
    (hn : byteLength before = n) :
    insertAt? n c (before ++ after) = some (before ++ c :: after) := by
  rw [insertAt?, ← hn, splitBytes?_append]
  rfl

theorem Span.enclose?_of_eq {s : Span} {text : String} {before part after : List Char}
    (htext : text.toList = before ++ part ++ after) (hlo : byteLength before = s.lo)
    (hhi : byteLength before + byteLength part = s.hi) :
    s.enclose? text = some (.ofList (before ++ '(' :: (part ++ ')' :: after))) := by
  have hclosed : insertAt? s.hi ')' text.toList = some (before ++ part ++ ')' :: after) := by
    rw [htext]
    exact insertAt?_append ')' (by rw [byteLength_append, hhi])
  rw [List.append_assoc] at hclosed
  simp only [enclose?, hclosed, insertAt?_append '(' hlo, Option.bind_eq_bind, Option.bind_some,
    Option.pure_def]

/-- Parentheses around a part of a text are two symbols more. -/
theorem symbolsOf_enclosed (before part after : List Char) :
    symbolsOf (.ofList (before ++ '(' :: (part ++ ')' :: after))) =
      symbolsOf (.ofList before) ++ .opening ::
        (symbolsOf (.ofList part) ++ .closing :: symbolsOf (.ofList after)) := by
  have hopening : Symbol.ofChar? '(' = some .opening := rfl
  have hclosing : Symbol.ofChar? ')' = some .closing := rfl
  have htext : String.ofList (before ++ '(' :: (part ++ ')' :: after)) =
      .ofList before ++ ('('.toString ++ (.ofList part ++ (')'.toString ++ .ofList after))) := by
    rw [← String.toList_inj]
    simp
  rw [htext, symbolsOf_append (apart_of_symbol hopening _ _), symbolsOf_cons hopening,
    symbolsOf_append (apart_of_symbol hclosing _ _), symbolsOf_cons hclosing]

/-- A node in parentheses has the symbols of the text with two parentheses around its own. -/
theorem Built.exists_enclosed {text : String} {m : Precedence} {e : Expr}
    {before vs after : List Token} (he : Built m e vs)
    (htokens : tokensOf (itemsOf text) = before ++ vs ++ after) :
    ∃ enclosed, e.span.enclose? text = some enclosed ∧
      symbolsOf enclosed = before.map Located.val ++ .opening ::
        (vs.map Located.val ++ .closing :: after.map Located.val) := by
  have horder : InOrder vs := (inOrder_tokensOf text).of_consecutive ⟨before, after, htokens.symm⟩
  obtain ⟨hfirst, hlast⟩ := he.spans horder
  obtain ⟨is, js, ks, hitems, rfl, rfl, rfl, hhead, hend⟩ :=
    exists_items_of_append he.ne_nil htokens
  have htiled : Tiled 0 text.toList (is ++ js ++ ks) := by
    rw [← hitems]
    exact tiled_itemsOf text
  have hlo : js.head?.map (·.span.lo) = some e.span.lo := by
    rw [hhead, Option.map_map]
    exact hfirst
  have hhi : js.getLast?.map (·.span.hi) = some e.span.hi := by
    rw [hend, Option.map_map]
    exact hlast
  obtain ⟨front, part, behind, htext, hfront, hpart, hfront', hpart', hbehind⟩ :=
    htiled.exists_cut hlo hhi
  refine ⟨_, Span.enclose?_of_eq htext hfront hpart, ?_⟩
  rw [symbolsOf_enclosed, ← hfront'.map_val_tokensOf, ← hpart'.map_val_tokensOf,
    ← hbehind.map_val_tokensOf]

/-- A text with the symbols of an operand is one tree, which is related to that. -/
theorem Built.exists_forestOf {r : Expr → Expr → Prop} (hr : Expr.Congruence r) {l : Precedence}
    {e : Expr} {us : List Token} (h : Built l e us) (text : String)
    (htext : us.map Located.val = symbolsOf text) :
    ∃ d, forestOf (tokensOf (itemsOf text)) = .ok [d] ∧ r e d := by
  have hown : forestOf us = .ok [e] := forestOf_eq_ok_iff.mpr (.of_built h)
  have hagree : Agree (List.Forall₂ r) (forestOf us) (forestOf (tokensOf (itemsOf text))) :=
    Feed.agree_forest hr htext _ _
  rw [hown] at hagree
  generalize forestOf (tokensOf (itemsOf text)) = forest at hagree
  cases hagree with
  | ok htrees =>
      obtain ⟨d, rest, hd, hrest, rfl⟩ := List.forall₂_cons_left_iff.mp htrees
      cases hrest
      exact ⟨d, rfl, hd⟩

/-- **Redundant parentheses never change the value.** Where the tokens of a text form one tree,
parentheses around any of its nodes, other than a number that multiplies a group, make a text with
one tree again, and with the same verdict. -/
theorem verdict_enclose? {text : String} {tree e : Expr}
    (h : forestOf (tokensOf (itemsOf text)) = .ok [tree]) (he : e ∈ tree.nodes)
    (hnot : ¬ e.IsMultiplier tree) :
    ∃ enclosed d, e.span.enclose? text = some enclosed ∧
      forestOf (tokensOf (itemsOf enclosed)) = .ok [d] ∧
      Calculation.verdict enclosed = Calculation.verdict text := by
  have hr : Expr.Congruence Expr.SameValue := Expr.congruence_sameValue
  obtain ⟨before, vs, after, htokens, ⟨m, hnode⟩, hreplace⟩ :=
    (Built.of_forestOf h).replaceable hr he hnot
  obtain ⟨enclosed, henclosed, hsymbols⟩ := hnode.exists_enclosed htokens
  -- where the two parentheses stand plays no part
  have hgroup : e.SameValue (.group (Span.join default default) e) := hr.refl e
  obtain ⟨tree', htree', hsame⟩ := hreplace default default e vs hnode.toSum hgroup
  obtain ⟨d, hd, hsame'⟩ := htree'.exists_forestOf hr enclosed (by rw [hsymbols]; simp)
  refine ⟨enclosed, d, henclosed, hd, (Calculation.verdict_congr ?_).symm⟩
  rw [h, hd]
  exact .ok (.cons (hsame.trans hsame') .nil)

/-- In `1/2(4)`, parentheses around the product of which the operator is not written, and around
the dividend. -/
theorem verdict_enclose?_quotient :
    let one : Expr := .number (.between 0 1) "1"
    let product : Expr := .binary (.between 2 6) ⟨.mul, .emptyAt 3⟩ (.number (.between 2 3) "2")
      (.group (.between 3 6) (.number (.between 4 5) "4"))
    let quotient : Expr := .binary (.between 0 6) ⟨.div, .between 1 2⟩ one product
    forestOf (tokensOf (itemsOf "1/2(4)")) = .ok [quotient] ∧
      product.span.enclose? "1/2(4)" = some "1/(2(4))" ∧
      one.span.enclose? "1/2(4)" = some "(1)/2(4)" ∧
      Calculation.verdict "1/(2(4))" = Calculation.verdict "1/2(4)" ∧
      Calculation.verdict "(1)/2(4)" = Calculation.verdict "1/2(4)" := by
  intro one product quotient
  have h : forestOf (tokensOf (itemsOf "1/2(4)")) = .ok [quotient] := by decide +kernel
  have hproduct : product ∈ quotient.nodes := by decide
  have hone : one ∈ quotient.nodes := by decide
  have hnot : ¬ product.IsMultiplier quotient := by
    intro hmul
    cases hmul.1
  have hnot' : ¬ one.IsMultiplier quotient := by
    intro hmul
    obtain ⟨-, s, op, rhs, himplicit, hmem⟩ := hmul
    obtain ⟨-, rfl, -⟩ : s = .between 0 6 ∧ op = ⟨.div, .between 1 2⟩ ∧ rhs = product := by
      simpa [quotient, product, one, Expr.nodes] using hmem
    cases himplicit
  have hfirst : product.span.enclose? "1/2(4)" = some "1/(2(4))" := by decide +kernel
  have hsecond : one.span.enclose? "1/2(4)" = some "(1)/2(4)" := by decide +kernel
  obtain ⟨enclosed, d, henclosed, -, hverdict⟩ := verdict_enclose? h hproduct hnot
  obtain ⟨enclosed', d', henclosed', -, hverdict'⟩ := verdict_enclose? h hone hnot'
  rw [hfirst] at henclosed
  rw [hsecond] at henclosed'
  cases henclosed
  cases henclosed'
  exact ⟨h, hfirst, hsecond, hverdict, hverdict'⟩

/-- Around the number that multiplies a group, parentheses would part it from that. -/
example : Calculation.verdict "1/(2)(4)" ≠ Calculation.verdict "1/2(4)" := by decide +kernel

end Calculator
