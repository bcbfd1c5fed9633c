import Calculator.Proofs.Calculation
import Calculator.Proofs.Forest.Canonical
import Calculator.Proofs.Forest.Refusal
import Calculator.Token.Cursor
import Mathlib.Data.List.Basic

/-!
# Forests side by side

Tokens that form a forest go on with those of another as if the two were written down one behind
the other (`Formed.append`). Only the last tree of the first could take what belongs to the second,
and it does so in one case: it ends in a number, and a parenthesis follows. The value of the two
together goes on from that of the first (`Forest.value_append_of_ok`).
-/

namespace Calculator

theorem EndsInNumber.append_left {v : List Symbol} (h : EndsInNumber v) (u : List Symbol) :
    EndsInNumber (u ++ v) := by
  rcases List.eq_nil_or_concat v with rfl | ⟨w, s, rfl⟩
  · obtain ⟨literal, hliteral⟩ := h
    cases hliteral
  · exact (endsInNumber_append (by simp)).mpr h

/-- **Forests join.** -/
theorem Formed.append {f g : Forest} {us vs : List Token} (hf : Formed f us) (hg : Formed g vs)
    (hapart : ¬ (EndsInNumber (us.map Located.val) ∧
      (vs.map Located.val).head? = some .opening)) :
    Formed (f ++ g) (us ++ vs) := by
  induction hf with
  | nil => exact hg
  | @cons e f us ws he hparted _ ih =>
      rw [List.map_append] at hapart
      rw [List.append_assoc]
      refine .cons he ?_ (ih ?_)
      · -- behind the last tree stands the first of the other forest
        by_cases hws : ws = []
        · subst hws
          intro s hs
          refine ⟨(hg.parted_of_nil s hs).1, ?_⟩
          intro hopening hnumber
          rw [List.map_nil, List.append_nil] at hapart
          exact hapart ⟨hnumber, by rw [← hopening]; exact hs⟩
        · obtain ⟨t, ws, rfl⟩ := List.exists_cons_of_ne_nil hws
          exact hparted.of_head? rfl
      · intro h
        exact hapart ⟨h.1.append_left _, h.2⟩

namespace Forest

/-- The product of some numbers; of none there is none. -/
def productOf : List Float → Option Float
  | [] => none
  | x :: xs => some ((x :: xs).foldl (· * ·) 1.0)

/-- Without a malformed number, what is multiplied are the values of the trees. -/
theorem productFrom_eq_ok_iff {f : Forest} {x y : Float} :
    productFrom x f = .ok y ↔
      ∃ zs : List Float, f.map Expr.value = zs.map .ok ∧ y = zs.foldl (· * ·) x := by
  -- the product so far is where the rest of the forest goes on from
  induction f generalizing x with
  | nil =>
      constructor
      · intro h
        cases h
        exact ⟨[], rfl, rfl⟩
      · intro h
        obtain ⟨zs, hzs, rfl⟩ := h
        cases List.map_eq_nil_iff.mp hzs.symm
        rfl
  | cons e f ih =>
      rw [productFrom, List.foldlM_cons]
      cases he : e.value with
      | error fault =>
          constructor
          · intro h
            cases h
          · intro h
            obtain ⟨zs, hzs, -⟩ := h
            rw [List.map_cons, he] at hzs
            cases zs <;> cases hzs
      | ok z =>
          constructor
          · intro h
            obtain ⟨zs, hzs, rfl⟩ := ih.mp h
            exact ⟨z :: zs, by rw [List.map_cons, he, hzs]; rfl, rfl⟩
          · intro h
            obtain ⟨zs, hzs, rfl⟩ := h
            rw [List.map_cons, he] at hzs
            obtain ⟨z', zs, rfl, hz, htail⟩ := List.map_eq_cons_iff.mp hzs.symm
            cases hz
            exact ih.mpr ⟨zs, htail.symm, rfl⟩

theorem value_eq_ok_iff {f : Forest} {x : Option Float} :
    Forest.value f = .ok x ↔
      ∃ zs : List Float, f.map Expr.value = zs.map .ok ∧ x = productOf zs := by
  cases f with
  | nil =>
      constructor
      · intro h
        cases h
        exact ⟨[], rfl, rfl⟩
      · intro h
        obtain ⟨zs, hzs, rfl⟩ := h
        cases List.map_eq_nil_iff.mp hzs.symm
        rfl
  | cons e f =>
      constructor
      · intro h
        rw [value] at h
        cases hproduct : productFrom 1.0 (e :: f) with
        | error fault =>
            rw [hproduct] at h
            cases h
        | ok y =>
            rw [hproduct] at h
            cases h
            obtain ⟨zs, hzs, rfl⟩ := productFrom_eq_ok_iff.mp hproduct
            obtain ⟨z, zs, rfl, -⟩ := List.map_eq_cons_iff.mp hzs.symm
            exact ⟨z :: zs, hzs, rfl⟩
      · intro h
        obtain ⟨zs, hzs, rfl⟩ := h
        obtain ⟨z, zs, rfl, -⟩ := List.map_eq_cons_iff.mp hzs.symm
        have hproduct : productFrom 1.0 (e :: f) = .ok ((z :: zs).foldl (· * ·) 1.0) :=
          productFrom_eq_ok_iff.mpr ⟨z :: zs, hzs, rfl⟩
        rw [value, hproduct]
        rfl

theorem productOf_of_ne_nil {zs : List Float} (h : zs ≠ []) :
    productOf zs = some (zs.foldl (· * ·) 1.0) := by
  obtain ⟨z, zs, rfl⟩ := List.exists_cons_of_ne_nil h
  rfl

/-- What goes on from the product of no numbers goes on from one. -/
theorem getD_productOf (zs : List Float) : (productOf zs).getD 1.0 = zs.foldl (· * ·) 1.0 := by
  cases zs <;> rfl

/-- Of two forests side by side, a malformed number of the first is to blame before one of the
second. -/
theorem value_append_eq_error_iff {f g : Forest} {fault : Located ValueFault} :
    Forest.value (f ++ g) = .error fault ↔
      Forest.value f = .error fault ∨
        (∃ x, Forest.value f = .ok x) ∧ Forest.value g = .error fault := by
  -- what is to blame is the first of all numbers, and those of the second forest come last
  rw [value_eq_error_iff, List.flatMap_append, firstMalformed_append]
  cases hf : Forest.value f with
  | error fault' =>
      rw [value_eq_error_iff.mp hf, Option.some_or]
      constructor
      · intro h
        exact .inl (congrArg Except.error (Option.some.inj h))
      · intro h
        rcases h with h | ⟨⟨x, hx⟩, -⟩
        · exact congrArg some (Except.error.inj h)
        · cases hx
  | ok x =>
      have hnone : firstMalformed (f.flatMap Expr.numbers) = none :=
        eq_none_of_ok (fun _ => value_eq_error_iff) hf
      rw [hnone, Option.none_or, ← value_eq_error_iff]
      constructor
      · intro h
        exact .inr ⟨⟨x, rfl⟩, h⟩
      · intro h
        rcases h with h | ⟨-, h⟩
        · cases h
        · exact h

/-- Two forests side by side multiply on from the value of the first. -/
theorem value_append_of_ok {f g : Forest} {x y : Option Float} (hf : Forest.value f = .ok x)
    (hg : Forest.value g = .ok y) :
    ∃ zs : List Float, g.map Expr.value = zs.map .ok ∧
      Forest.value (f ++ g) =
        .ok (if f = [] ∧ g = [] then none else some (zs.foldl (· * ·) (x.getD 1.0))) := by
  obtain ⟨ws, hws, rfl⟩ := value_eq_ok_iff.mp hf
  obtain ⟨zs, hzs, -⟩ := value_eq_ok_iff.mp hg
  refine ⟨zs, hzs, value_eq_ok_iff.mpr ⟨ws ++ zs, ?_, ?_⟩⟩
  · rw [List.map_append, List.map_append, hws, hzs]
  · by_cases hnil : f = [] ∧ g = []
    · obtain ⟨rfl, rfl⟩ := hnil
      cases List.map_eq_nil_iff.mp hws.symm
      cases List.map_eq_nil_iff.mp hzs.symm
      rfl
    · have hne : ws ++ zs ≠ [] := by
        intro h
        obtain ⟨rfl, rfl⟩ := List.append_eq_nil_iff.mp h
        exact hnil ⟨List.map_eq_nil_iff.mp hws, List.map_eq_nil_iff.mp hzs⟩
      rw [if_neg hnil, productOf_of_ne_nil hne, getD_productOf, List.foldl_append]

end Forest

/-- **Two forests side by side.** Unless the first ends in a number and the second begins with a
parenthesis, the tokens of both are read into the trees of both. Their value fails as the first
fails, else as the second does; else it is the product that goes on from the value of the first
through the trees of the second, and there is none only where there is no tree at all. -/
theorem forestOf_juxtaposed {ts us : List Token} {f g : Forest} (hf : forestOf ts = .ok f)
    (hg : forestOf us = .ok g)
    (hapart : ¬ (EndsInNumber (ts.map Located.val) ∧
      (us.map Located.val).head? = some .opening)) :
    forestOf (ts ++ us) = .ok (f ++ g) ∧
      (∀ fault, Forest.value f = .error fault → Forest.value (f ++ g) = .error fault) ∧
      (∀ x fault, Forest.value f = .ok x → Forest.value g = .error fault →
        Forest.value (f ++ g) = .error fault) ∧
      ∀ x y, Forest.value f = .ok x → Forest.value g = .ok y →
        ∃ zs : List Float, g.map Expr.value = zs.map .ok ∧
          Forest.value (f ++ g) =
            .ok (if f = [] ∧ g = [] then none else some (zs.foldl (· * ·) (x.getD 1.0))) := by
  have hforest : Formed (f ++ g) (ts ++ us) :=
    (forestOf_eq_ok_iff.mp hf).append (forestOf_eq_ok_iff.mp hg) hapart
  refine ⟨forestOf_eq_ok_iff.mpr hforest, ?_, ?_, ?_⟩
  · intro fault hfault
    exact Forest.value_append_eq_error_iff.mpr (.inl hfault)
  · intro x fault hx hfault
    exact Forest.value_append_eq_error_iff.mpr (.inr ⟨⟨x, hx⟩, hfault⟩)
  · intro x y hx hy
    exact Forest.value_append_of_ok hx hy

/-- The tokens of `2(3)` and of `(4)5`: what the group behind the product is multiplied with is
six, and the number behind the group comes last. -/
theorem forestOf_juxtaposed_product_and_group :
    let ts : List Token := tokensOf (itemsOf "2(3)")
    let us : List Token := tokensOf (itemsOf "(4)5")
    let product : Expr := .binary (.between 0 4) ⟨.mul, .emptyAt 1⟩ (.number (.between 0 1) "2")
      (.group (.between 1 4) (.number (.between 2 3) "3"))
    let group : Expr := .group (.between 0 3) (.number (.between 1 2) "4")
    let five : Expr := .number (.between 3 4) "5"
    forestOf ts = .ok [product] ∧ forestOf us = .ok [group, five] ∧
      ¬ (EndsInNumber (ts.map Located.val) ∧ (us.map Located.val).head? = some .opening) ∧
      forestOf (ts ++ us) = .ok [product, group, five] ∧ Forest.value [product] = .ok (some 6) ∧
      Forest.value [product, group, five] = .ok (some (6 * 4 * 5)) := by
  intro ts us product group five
  have hf : forestOf ts = .ok [product] := by decide +kernel
  have hg : forestOf us = .ok [group, five] := by decide +kernel
  have hapart : ¬ (EndsInNumber (ts.map Located.val) ∧
      (us.map Located.val).head? = some .opening) := by
    intro h
    obtain ⟨⟨literal, hliteral⟩, -⟩ := h
    have hlast : (ts.map Located.val).getLast? = some .closing := by decide +kernel
    rw [hlast] at hliteral
    cases hliteral
  have hsix : Forest.value [product] = .ok (some 6) := by decide +kernel
  have htwenty : Forest.value [group, five] = .ok (some 20) := by decide +kernel
  obtain ⟨hforest, -, -, hvalue⟩ := forestOf_juxtaposed hf hg hapart
  obtain ⟨zs, hzs, hvalue⟩ := hvalue _ _ hsix htwenty
  have hvalues : [group, five].map Expr.value = [4, 5].map .ok := by decide +kernel
  have hfactors : zs = [4, 5] :=
    List.map_injective_iff.mpr (fun _ _ => Except.ok.inj) (hzs.symm.trans hvalues)
  subst hfactors
  exact ⟨hf, hg, hapart, hforest, hsix, hvalue⟩

end Calculator
