import Calculator.Proofs.Number.ReadBack
import Calculator.Proofs.Reentry
import Calculator.Proofs.Verdict

/-!
# Going on from a shown result

A text that goes on from what is shown of a result comes to the same as one that goes on from what
the result was calculated from, in parentheses. The number and the group are operands of the same
value, and behind an operator nothing remains of an operand but that; so from there on the two texts
are read alike.
-/

namespace Calculator

/-- Behind an operator one operand is as good as another that is related to it. -/
theorem Growth.agree_forest_of_operator {r : Expr → Expr → Prop} (hr : Expr.Congruence r)
    {d e : Expr} (hde : r d e) {ts us : List Token}
    (hts : ts.map Located.val = us.map Located.val)
    (hop : ∃ o, (ts.map Located.val).head? = some (.op o)) (last last' : Span) :
    Agree (List.Forall₂ r) (Growth.forest last ⟨some d, {}, []⟩ ts)
      (Growth.forest last' ⟨some e, {}, []⟩ us) := by
  obtain ⟨o, ho⟩ := hop
  obtain ⟨v, hsymbols⟩ := List.head?_eq_some_iff.mp ho
  obtain ⟨s, ts, rfl, hvs⟩ := exists_cons_of_map hsymbols
  obtain ⟨t, us, rfl, hus⟩ := exists_cons_of_map (hts ▸ hsymbols)
  have hleft : Growth.Reads ⟨some d, {}, []⟩ [⟨.op o, s⟩] ⟨none, Pending.push {} d ⟨o, s⟩, []⟩ :=
    .single rfl
  have hright : Growth.Reads ⟨some e, {}, []⟩ [⟨.op o, t⟩] ⟨none, Pending.push {} e ⟨o, t⟩, []⟩ :=
    .single rfl
  have halike : Growth.Alike r ⟨none, Pending.push {} d ⟨o, s⟩, []⟩
      ⟨none, Pending.push {} e ⟨o, t⟩, []⟩ :=
    ⟨.none, Pending.alike_empty.push hr hde o s t, .nil⟩
  have hrest := halike.agree_forest hr (hvs.trans hus.symm) last last'
  rwa [← hleft.forest_append, ← hright.forest_append] at hrest

/-- A forest that begins with the tokens of an operand goes on behind it. -/
theorem Built.forestOf_append {e : Expr} {us : List Token} (he : Built .atom e us)
    (vs : List Token) :
    forestOf (us ++ vs) = Growth.forest (Feed.endOf (us ++ vs)) ⟨some e, {}, []⟩ vs := by
  obtain ⟨h, hreads, rfl⟩ := he.reads (g := {}) rfl
  obtain ⟨t, ts, rfl, -⟩ := he.exists_begins
  rw [← hreads.forest_append, List.cons_append, ← Feed.forest_cons]
  rfl

/-- An operator in front of a text is its first symbol. -/
theorem head?_symbolsOf {text : String} {o : Op} (h : text.toList.head? = some o.char) :
    (symbolsOf text).head? = some (.op o) := by
  obtain ⟨cs, hcs⟩ := List.head?_eq_some_iff.mp h
  have htext : text = o.char.toString ++ .ofList cs := by
    rw [← String.toList_inj, hcs]
    simp
  rw [htext, symbolsOf_cons o.ofChar?_char]
  rfl

/-- The tokens of a text in parentheses, and of another behind it. -/
theorem exists_tokens_of_group (text later : String) :
    ∃ o c vs, tokensOf (itemsOf ("(" ++ text ++ ")" ++ later)) =
        ⟨.opening, o⟩ :: ((tokensOf (itemsOf text)).map (·.shift 1) ++ [⟨.closing, c⟩]) ++ vs ∧
      vs.map Located.val = symbolsOf later := by
  have hopening : Symbol.ofChar? '(' = some .opening := rfl
  have hclosing : Symbol.ofChar? ')' = some .closing := rfl
  have hapart : Apart text (')'.toString ++ later) := apart_of_symbol hclosing text later
  have htext : "(" ++ text ++ ")" ++ later = '('.toString ++ (text ++ (')'.toString ++ later)) := by
    rw [← String.append_assoc, ← String.append_assoc]
    rfl
  rw [htext, tokensOf_itemsOf_cons hopening, tokensOf_itemsOf_append hapart,
    tokensOf_itemsOf_cons hclosing]
  simp only [List.map_append, List.map_cons, List.cons_append, List.append_assoc, List.nil_append]
  refine ⟨_, _, _, rfl, ?_⟩
  simp only [List.map_map]
  rfl

/-- A text with one tree comes to the value of that. -/
theorem Calculation.value_of_ofText {text : String} {tree : Expr} {x : Float}
    {notices : List Notice} (htree : forestOf (tokensOf (itemsOf text)) = .ok [tree])
    (hvalue : ofText text = .ok ⟨some x, notices⟩) : tree.value = .ok x := by
  rw [ofText_eq, htree] at hvalue
  simp only [Forest.value_singleton] at hvalue
  generalize tree.value = result at hvalue
  cases result with
  | error fault => cases hvalue
  | ok y =>
      cases hvalue
      rfl

/-- **Going on from a result** that is zero or above it comes to the same as going on from what it
was calculated from, in parentheses. -/
theorem verdict_display_append {text later : String} {tree : Expr} {x : Float}
    {notices : List Notice} (htree : forestOf (tokensOf (itemsOf text)) = .ok [tree])
    (hvalue : Calculation.ofText text = .ok ⟨some x, notices⟩)
    (hx : x = 0 ∨ 0 < x ∧ x.isFinite = true)
    (hlater : ∃ o : Op, later.toList.head? = some o.char) :
    Calculation.verdict (Number.display x ++ later) =
      Calculation.verdict ("(" ++ text ++ ")" ++ later) := by
  have hshown : IsLiteral (Number.display x) ∧ Number.ReadsBack x := by
    rcases hx with rfl | ⟨hpositive, hfinite⟩
    · exact ⟨Number.display_zero ▸ Number.isLiteral_zero, Number.readsBack_zero⟩
    · exact ⟨Number.isLiteral_display hpositive hfinite, Number.readsBack_of_pos hpositive⟩
  obtain ⟨hliteral, hback⟩ := hshown
  obtain ⟨o, hfirst⟩ := hlater
  have hoperator : (symbolsOf later).head? = some (.op o) := head?_symbolsOf hfirst
  -- the tokens of the two texts: an operand, and what is behind it
  have hapart : Apart (Number.display x) later := by
    refine apart_of_head? ?_ _
    rw [hfirst]
    rintro _ ⟨⟩
    cases o <;> rfl
  obtain ⟨s, us, hnumber, hus⟩ : ∃ s us, tokensOf (itemsOf (Number.display x ++ later)) =
      [⟨.number (Number.display x), s⟩] ++ us ∧ us.map Located.val = symbolsOf later := by
    refine ⟨_, _, by rw [tokensOf_itemsOf_append hapart, itemsOf_of_literal hliteral]; rfl, ?_⟩
    rw [List.map_map]
    rfl
  obtain ⟨p, c, vs, hgroup, hvs⟩ := exists_tokens_of_group text later
  -- the two operands have one value
  have hsame : Expr.SameValue (.number s (Number.display x))
      (.group (p.join c) (tree.shift 1)) := by
    have hshift := Expr.congruence_sameValue.shift tree 1
    rw [Expr.SameValue, Calculation.value_of_ofText htree hvalue] at hshift
    have hvalue : (Expr.number s (Number.display x)).value = .ok x := by
      rw [Expr.value, hback]
    rw [Expr.SameValue, hvalue]
    exact hshift
  have hbuilt : Built .atom (.group (p.join c) (tree.shift 1)) _ :=
    .group (((Built.of_forestOf htree).shift 1))
  refine Calculation.verdict_congr ?_
  rw [hnumber, hgroup, Built.forestOf_append .number, hbuilt.forestOf_append]
  exact Growth.agree_forest_of_operator Expr.congruence_sameValue hsame (hus.trans hvs.symm)
    ⟨o, hus ▸ hoperator⟩ _ _

/-- Going on from `0.1+0.2`, to a value and to a fault. -/
theorem verdict_display_append_sum :
    let tree : Expr := .binary (.between 0 7) ⟨.add, .between 3 4⟩ (.number (.between 0 3) "0.1")
      (.number (.between 4 7) "0.2")
    let x : Float := 0.30000000000000004
    forestOf (tokensOf (itemsOf "0.1+0.2")) = .ok [tree] ∧
      Calculation.ofText "0.1+0.2" = .ok ⟨some x, []⟩ ∧ 0 < x ∧ x.isFinite = true ∧
      Calculation.verdict (Number.display x ++ "/0") = .ok (some (1.0 / 0.0)) ∧
      Calculation.verdict ("(" ++ "0.1+0.2" ++ ")" ++ "/0") = .ok (some (1.0 / 0.0)) ∧
      Calculation.verdict ("(" ++ "0.1+0.2" ++ ")" ++ "*(") =
        Calculation.verdict (Number.display x ++ "*(") := by
  intro tree x
  have htree : forestOf (tokensOf (itemsOf "0.1+0.2")) = .ok [tree] := by decide +kernel
  have hvalue : Calculation.ofText "0.1+0.2" = .ok ⟨some x, []⟩ := by decide +kernel
  have hpositive : 0 < x := by decide +kernel
  have hfinite : x.isFinite = true := by decide +kernel
  have hgoesOn (later : String) (h : ∃ o : Op, later.toList.head? = some o.char) :
      Calculation.verdict (Number.display x ++ later) =
        Calculation.verdict ("(" ++ "0.1+0.2" ++ ")" ++ later) :=
    verdict_display_append htree hvalue (.inr ⟨hpositive, hfinite⟩) h
  have hquotient : Calculation.verdict (Number.display x ++ "/0") = .ok (some (1.0 / 0.0)) := by
    decide +kernel
  exact ⟨htree, hvalue, hpositive, hfinite, hquotient,
    (hgoesOn "/0" ⟨.div, rfl⟩).symm.trans hquotient, (hgoesOn "*(" ⟨.mul, rfl⟩).symm⟩

end Calculator
