import Calculator.Proofs.Expr.Canonical
import Calculator.Proofs.Token.Blanking
import Calculator.Proofs.Verdict

/-!
# What a text comes to does not depend on places

Tokens with the same symbols make the same forest but for its places, or fail for the same reason at
the same token. So neither where the tokens of a text stand nor what is passed over between them has
a part in its verdict: with spaces for all that is passed over, it is the same
(`reading_ignores_places`).
-/

namespace Calculator

/-- Expressions that are the same but for their places are related, if what they are made of is. -/
theorem Expr.Congruence.of_eraseSpans {r : Expr → Expr → Prop} (hr : Expr.Congruence r)
    {d e : Expr} (h : d.eraseSpans = e.eraseSpans) : r d e := by
  induction d generalizing e with
  | number s literal =>
      cases e with
      | number t literal' =>
          cases h
          exact hr.number s t literal
      | group => cases h
      | binary => cases h
  | group s d ih =>
      cases e with
      | number => cases h
      | group t e =>
          rw [eraseSpans, eraseSpans, group.injEq] at h
          exact hr.group s t (ih h.2)
      | binary => cases h
  | binary s o a d iha ihd =>
      cases e with
      | number => cases h
      | group => cases h
      | binary t p b e =>
          rw [eraseSpans, eraseSpans, binary.injEq, Located.mk.injEq] at h
          obtain ⟨-, ⟨ho, -⟩, hlhs, hrhs⟩ := h
          exact hr.binary s t ho (iha hlhs) (ihd hrhs)

/-- To be the same but for places goes up from operands to what is made of them. -/
theorem Expr.congruence_eraseSpans :
    Expr.Congruence fun d e => d.eraseSpans = e.eraseSpans where
  number _ _ _ := rfl
  group _ _ h := by rw [eraseSpans, eraseSpans, h]
  binary _ _ ho hlhs hrhs := by rw [eraseSpans, eraseSpans, ho, hlhs, hrhs]

theorem Forest.map_eraseSpans_eq_iff {f g : Forest} :
    f.map Expr.eraseSpans = g.map Expr.eraseSpans ↔
      List.Forall₂ (fun d e => d.eraseSpans = e.eraseSpans) f g := by
  rw [← List.forall₂_eq_eq_eq, List.forall₂_map_left_iff, List.forall₂_map_right_iff]

/-- What is left behind an expression is the end of what there was. -/
theorem Feed.rest_expr_suffix {f g : Feed} {outcome : Outcome} (h : f.expr = (outcome, g)) :
    g.rest <:+ f.rest := by
  obtain ⟨us, -, hus, -⟩ := Growth.exists_reads_of_run f.last {} f.rest
  cases h
  exact ⟨us, hus.symm⟩

/-- What is left behind a forest is the end of what there was. -/
theorem Feed.rest_forest_suffix (f : Feed) : f.forest.2.rest <:+ f.rest := by
  fun_induction forest f with
  | case1 f => exact List.suffix_rfl
  | case2 f _ fault g he => exact Feed.rest_expr_suffix he
  | case3 f _ e g he trees after hg ih =>
      rw [hg] at ih
      exact ih.trans (Feed.rest_expr_suffix he)

/-- Tokens with the same symbols are read up to the same place among them. -/
theorem Feed.exists_rest_eq_drop {ts us : List Token}
    (hts : ts.map Located.val = us.map Located.val) :
    ∃ p ≤ ts.length, (Feed.ofTokens ts).forest.2.rest = ts.drop p ∧
      (Feed.ofTokens us).forest.2.rest = us.drop p := by
  have hrest : (Feed.ofTokens ts).forest.2.rest.map Located.val =
      (Feed.ofTokens us).forest.2.rest.map Located.val :=
    (Feed.alike_forest Expr.congruence_eraseSpans hts _ _).2
  have hlength : ts.length = us.length := by simpa using congrArg List.length hts
  have hleft : (Feed.ofTokens ts).forest.2.rest.length =
      (Feed.ofTokens us).forest.2.rest.length := by
    simpa using congrArg List.length hrest
  have hends : (Feed.ofTokens ts).forest.2.rest <:+ ts := Feed.rest_forest_suffix _
  have hends' : (Feed.ofTokens us).forest.2.rest <:+ us := Feed.rest_forest_suffix _
  refine ⟨_, Nat.sub_le _ _, List.suffix_iff_eq_drop.mp hends, ?_⟩
  rw [hlength, hleft]
  exact List.suffix_iff_eq_drop.mp hends'

/-- **Places and what is passed over have no part in what is read.** Tokens with the same symbols
make forests that are the same but for their places, and so have the same value or the same
malformed number, or they fail for the same reason in front of the same token. And a text keeps its
symbols and its verdict when a space is put in the place of every character that is passed over. -/
theorem reading_ignores_places :
    (∀ ts us : List Token, ts.map Located.val = us.map Located.val →
      Agree
          (fun f g : Forest => f.map Expr.eraseSpans = g.map Expr.eraseSpans ∧
            Agree (· = ·) (Forest.value f) (Forest.value g))
          (forestOf ts) (forestOf us) ∧
        ∃ p ≤ ts.length, (Feed.ofTokens ts).forest.2.rest = ts.drop p ∧
          (Feed.ofTokens us).forest.2.rest = us.drop p) ∧
    ∀ text : String,
      symbolsOf (blanked text) = symbolsOf text ∧ noticesOf (itemsOf (blanked text)) = [] ∧
        Calculation.verdict (blanked text) = Calculation.verdict text := by
  constructor
  · intro ts us hts
    have hforest : Agree (List.Forall₂ fun d e => d.eraseSpans = e.eraseSpans) (forestOf ts)
        (forestOf us) := Feed.agree_forest Expr.congruence_eraseSpans hts _ _
    refine ⟨hforest.imp fun f g htrees => ?_, Feed.exists_rest_eq_drop hts⟩
    have hvalues := htrees.imp fun d e h => Expr.congruence_sameValue.of_eraseSpans h
    exact ⟨Forest.map_eraseSpans_eq_iff.mpr htrees, Forest.agree_value hvalues⟩
  · intro text
    obtain ⟨hsymbols, hnotices⟩ := symbolsOf_blanked text
    exact ⟨hsymbols, hnotices, Calculation.verdict_congr
      (Feed.agree_forest Expr.congruence_sameValue hsymbols _ _)⟩

/-- A malformed number, behind a character that is passed over and takes two bytes. -/
theorem reading_ignores_places_of_malformed :
    let text := "7×1.2.3"
    let ts := tokensOf (itemsOf text)
    let us : List Token := [⟨.number "7", .between 2 3⟩, ⟨.number "1.2.3", .emptyAt 0⟩]
    ts.map Located.val = us.map Located.val ∧
      Agree
        (fun f g : Forest => f.map Expr.eraseSpans = g.map Expr.eraseSpans ∧
          Agree (· = ·) (Forest.value f) (Forest.value g))
        (forestOf ts) (forestOf us) ∧
      blanked text = "7 1.2.3" ∧
      Calculation.verdict "7 1.2.3" = Calculation.verdict text ∧
      Calculation.verdict text = .error (.inr (.invalidNumber "1.2.3")) := by
  intro text ts us
  have hts : ts.map Located.val = us.map Located.val := by decide +kernel
  have hblanked : blanked text = "7 1.2.3" := by decide +kernel
  obtain ⟨htokens, htext⟩ := reading_ignores_places
  obtain ⟨-, -, hverdict⟩ := htext text
  rw [hblanked] at hverdict
  exact ⟨hts, (htokens ts us hts).1, hblanked, hverdict, by decide +kernel⟩

end Calculator
