import Calculator.Proofs.Expr.Canonical
import Calculator.Proofs.Forest.Formed

/-!
# The forest that is read is the right one

Written down, a forest that is read gives back its tokens; each of its trees is canonical;
and it is cut into trees where no token could have gone on with the tree before.
-/

namespace Calculator

/-- The symbols of a forest as it is written. -/
def Forest.symbols (f : Forest) : List Symbol := f.flatMap Expr.symbols

namespace Formed

theorem symbols_eq {f : Forest} {ts : List Token} (h : Formed f ts) (hts : OperatorsPlaced ts) :
    f.symbols = ts.map Located.val := by
  induction h with
  | nil => rfl
  | cons he _ _ ih =>
      obtain ⟨hus, hvs⟩ := hts.append
      rw [Forest.symbols, List.flatMap_cons, List.map_append, he.symbols_eq hus, ← ih hvs]
      rfl

theorem canonical {f : Forest} {ts : List Token} (h : Formed f ts) (hts : OperatorsPlaced ts) :
    ∀ e ∈ f, e.Canonical := by
  induction h with
  | nil => exact List.forall_mem_nil _
  | cons he _ _ ih =>
      obtain ⟨hus, hvs⟩ := hts.append
      exact List.forall_mem_cons.2 ⟨(he.canonical hus).1, ih hvs⟩

theorem isEmpty_eq_isImplicit {f : Forest} {ts : List Token} (h : Formed f ts)
    (hts : OperatorsPlaced ts) :
    ∀ e ∈ f, ∀ op ∈ e.operators, op.span.isEmpty = op.isImplicit := by
  induction h with
  | nil => exact List.forall_mem_nil _
  | cons he _ _ ih =>
      obtain ⟨hus, hvs⟩ := hts.append
      exact List.forall_mem_cons.2 ⟨he.isEmpty_eq_isImplicit hus, ih hvs⟩

/-- No forest goes on with nothing. -/
theorem parted_of_nil {f : Forest} {ts : List Token} (h : Formed f ts) :
    Parted [] (ts.map Located.val) := by
  cases h with
  | nil => exact parted_nil _
  | cons he _ _ =>
      obtain ⟨t, us, rfl, ht⟩ := he.exists_begins
      intro s hs
      cases hs
      refine ⟨?_, ?_⟩
      · intro o ho
        rw [ho] at ht
        cases ht
      · intro _ hnumber
        obtain ⟨literal, hliteral⟩ := hnumber
        cases hliteral

/-- Where a forest is cut in two, its tokens are, and the cut is clean. -/
theorem exists_cut {f g : Forest} {ts : List Token} (h : Formed (f ++ g) ts) :
    ∃ us vs, ts = us ++ vs ∧ Formed f us ∧ Formed g vs ∧
      Parted (us.map Located.val) (vs.map Located.val) := by
  induction f generalizing ts with
  | nil => exact ⟨[], ts, rfl, .nil, h, h.parted_of_nil⟩
  | cons e f ih =>
      cases h with
      | @cons _ _ us vs he hparted hf =>
          obtain ⟨xs, ys, rfl, hxs, hys, hcut⟩ := ih hf
          rw [List.map_append] at hparted
          refine ⟨us ++ xs, ys, by simp, .cons he hparted.of_append hxs, hys, ?_⟩
          -- the tree in front of the cut is `e` only if no other tree comes between
          by_cases hnil : xs = []
          · subst hnil
            simpa using hparted
          · rw [List.map_append]
            exact hcut.append_left (by simpa using hnil)

end Formed

/-- **Reading back.** Written down, a forest gives back the tokens it was read from; its
trees are canonical, with no place for exactly the operators that are not written; and
wherever it is cut in two, the tokens behind the cut do not go on with the tree in front of
it. -/
theorem forestOf_canonical {tokens : List Token} {trees : Forest}
    (hplaced : OperatorsPlaced tokens) (h : forestOf tokens = .ok trees) :
    Forest.symbols trees = tokens.map Located.val ∧ (∀ e ∈ trees, e.Canonical) ∧
      (∀ e ∈ trees, ∀ op ∈ e.operators, op.span.isEmpty = op.isImplicit) ∧
      ∀ before after, trees = before ++ after →
        ∃ us vs, tokens = us ++ vs ∧ us.map Located.val = Forest.symbols before ∧
          vs.map Located.val = Forest.symbols after ∧
          Parted (us.map Located.val) (vs.map Located.val) := by
  have hformed : Formed trees tokens := forestOf_eq_ok_iff.1 h
  refine ⟨hformed.symbols_eq hplaced, hformed.canonical hplaced,
    hformed.isEmpty_eq_isImplicit hplaced, ?_⟩
  intro before after htrees
  subst htrees
  obtain ⟨us, vs, rfl, hus, hvs, hcut⟩ := hformed.exists_cut
  obtain ⟨hplaced₁, hplaced₂⟩ := hplaced.append
  exact ⟨us, vs, rfl, (hus.symbols_eq hplaced₁).symm, (hvs.symbols_eq hplaced₂).symm, hcut⟩

/-- The tokens of `2+3(4)5`: a sum with a product that is not written, and a number. -/
theorem forestOf_canonical_sum_beside_number :
    let tokens : List Token :=
      [⟨.number "2", .between 0 1⟩, ⟨.op .add, .between 1 2⟩, ⟨.number "3", .between 2 3⟩,
        ⟨.opening, .between 3 4⟩, ⟨.number "4", .between 4 5⟩, ⟨.closing, .between 5 6⟩,
        ⟨.number "5", .between 6 7⟩]
    let product : Expr :=
      .binary (.between 2 6) ⟨.mul, .emptyAt 3⟩ (.number (.between 2 3) "3")
        (.group (.between 3 6) (.number (.between 4 5) "4"))
    let sum : Expr :=
      .binary (.between 0 6) ⟨.add, .between 1 2⟩ (.number (.between 0 1) "2") product
    let five : Expr := .number (.between 6 7) "5"
    OperatorsPlaced tokens ∧ forestOf tokens = .ok [sum, five] ∧
      Forest.symbols [sum, five] = tokens.map Located.val ∧ sum.Canonical ∧
      ∃ us vs, tokens = us ++ vs ∧ us.map Located.val = Forest.symbols [sum] ∧
        vs.map Located.val = Forest.symbols [five] ∧
        Parted (us.map Located.val) (vs.map Located.val) := by
  intro tokens product sum five
  have hplaced : OperatorsPlaced tokens := by
    simp [OperatorsPlaced, tokens, Span.isEmpty]
  have hread : forestOf tokens = .ok [sum, five] := by cbv
  obtain ⟨hsymbols, hcanonical, -, hcut⟩ := forestOf_canonical hplaced hread
  exact ⟨hplaced, hread, hsymbols, hcanonical sum (List.mem_cons_self ..), hcut [sum] [five] rfl⟩

end Calculator
