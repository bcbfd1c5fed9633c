import Calculator.Proofs.Expr.Stopping
import Calculator.Proofs.Forest.Language

/-!
# Tokens that are refused

Reading a forest fails at the earliest place where it can be known to fail. What was read is
the beginning of something the grammar derives; with the next token it is not, whatever may
come behind: a refusal depends on no token behind the one it stops at (`Refused.of_cons`), so
if the grammar derived a list with that beginning, reading would refuse what the grammar
derives.
-/

namespace Calculator

/-- Reading takes the first tokens and refuses to go on with the others: the expressions in
front are complete, and the next one fails. The end of all tokens is at `last`. -/
inductive Refused (last : Span) : List Token → List Token → Located ParseFault → Prop
  | here {g : Growth} {us rest : List Token} {fault : Located ParseFault} (hne : us ++ rest ≠ [])
      (hus : Growth.Reads {} us g) (hhalts : g.Halts last (.error fault) rest) :
      Refused last us rest fault
  | later {e : Expr} {us vs rest : List Token} {fault : Located ParseFault} (he : Built .sum e us)
      (hparted : Parted (us.map Located.val) ((vs ++ rest).map Located.val))
      (hvs : Refused last vs rest fault) : Refused last (us ++ vs) rest fault

/-- Whether one can go on with an expression depends on the first symbol behind it. -/
theorem Parted.of_head? {u v w : List Symbol} (h : Parted u v) (hvw : v.head? = w.head?) :
    Parted u w := by
  rw [Parted, ← hvw]
  exact h

namespace Feed

theorem forest_of_fault {f g : Feed} {fault : Located ParseFault} (hne : f.rest ≠ [])
    (h : f.expr = (.error fault, g)) : f.forest = (.error fault, g) := by
  rw [forest, if_neg (by rw [List.isEmpty_iff]; exact hne)]
  split
  · rename_i h'
    rw [h] at h'
    cases h'
    rfl
  · rename_i h'
    rw [h] at h'
    cases h'

/-- **Reading fails exactly where tokens are refused.** -/
theorem forest_eq_error_iff {f g : Feed} {fault : Located ParseFault} :
    f.forest = (.error fault, g) ↔
      ∃ us, f.rest = us ++ g.rest ∧ g.last = f.last ∧ Refused f.last us g.rest fault := by
  constructor
  · intro h
    fun_induction forest f generalizing g fault with
    | case1 => cases h
    | case2 f hne fault' g' he =>
        cases h
        obtain ⟨us, k, hrest, hus, hhalts⟩ := Growth.exists_reads_of_run f.last {} f.rest
        obtain ⟨houtcome, hg⟩ := Prod.mk.inj he
        rw [houtcome] at hhalts
        subst hg
        refine ⟨us, hrest, rfl, .here ?_ hus hhalts⟩
        rw [← hrest]
        intro hnil
        rw [hnil] at hne
        exact hne rfl
    | case3 f _ e k he trees after hk ih =>
        rw [hk] at ih
        cases trees with
        | ok es => cases h
        | error fault' =>
            cases h
            obtain ⟨us, hus, hlast, hbuilt, hparted⟩ := expr_eq_ok_iff.mp he
            obtain ⟨vs, hvs, hlast', hrefused⟩ := ih rfl
            rw [hlast] at hrefused hlast'
            rw [hvs] at hus hparted
            refine ⟨us ++ vs, ?_, hlast', .later hbuilt hparted hrefused⟩
            rw [hus, List.append_assoc]
  · rintro ⟨us, hrest, hlast, hrefused⟩
    obtain ⟨last, ts⟩ := f
    obtain ⟨last', rest⟩ := g
    simp only at hrest hlast hrefused
    subst hrest hlast
    induction hrefused with
    | @here k us rest fault hne hus hhalts =>
        refine forest_of_fault hne ?_
        rw [expr, hus.run_append, Growth.run_of_halts hhalts]
    | @later e us vs rest fault he hparted _ ih =>
        have hexpr : (⟨last', us ++ vs ++ rest⟩ : Feed).expr = (.ok e, ⟨last', vs ++ rest⟩) :=
          expr_eq_ok_iff.mpr ⟨us, List.append_assoc us vs rest, rfl, he, hparted⟩
        rw [forest_of_expr hexpr, ih]
        rfl

end Feed

namespace Refused

variable {last : Span} {us rest : List Token} {fault : Located ParseFault}

theorem ne_nil (h : Refused last us rest fault) : us ++ rest ≠ [] := by
  induction h with
  | here hne => exact hne
  | later he _ _ _ =>
      intro hnil
      rw [List.append_assoc] at hnil
      exact he.ne_nil (List.append_eq_nil_iff.mp hnil).1

/-- A refusal depends on no token behind the one it stops at, and not on where the end is. -/
theorem of_cons {t : Token} {ts : List Token} (h : Refused last us (t :: ts) fault) (last' : Span)
    (ts' : List Token) : Refused last' us (t :: ts') fault := by
  generalize hrest : t :: ts = rest at h
  induction h with
  | here _ hus hhalts =>
      subst hrest
      exact .here (by simp) hus hhalts.of_cons
  | @later e us vs rest fault he hparted _ ih =>
      subst hrest
      refine .later he (hparted.of_head? ?_) (ih rfl)
      cases vs with
      | nil => rfl
      | cons v vs => rfl

theorem blames (h : Refused last us rest fault) : fault.Blames last us rest := by
  induction h with
  | here _ hus hhalts =>
      have hholds : Growth.Holds _ _ := Growth.holds_empty.reads hus
      exact hhalts.blames hholds
  | @later e us vs rest fault he _ _ ih =>
      -- only the blamed parenthesis is told by what was read, and it is in the last expression
      obtain ⟨kind, s⟩ := fault
      cases kind with
      | expectedAtom found => exact ih
      | unexpectedEnd => exact ih
      | unclosedGroup =>
          obtain ⟨⟨before, after, rfl, hbalanced⟩, hnext⟩ := ih
          exact ⟨⟨us ++ before, after, by rw [List.append_assoc], hbalanced⟩, hnext⟩

end Refused

end Calculator
