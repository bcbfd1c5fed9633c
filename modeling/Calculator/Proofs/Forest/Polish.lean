import Calculator.Proofs.Ending
import Calculator.Proofs.Independence

/-!
# A forest is determined by how it is shown

With every operator in front, an expression can be told from whatever follows it: a parenthesis ends
where its partner stands, and a number at the first character that it could not go on with
(`Expr.polish_append_inj`). So the line that shows a forest determines its trees, but for their
places (`Forest.polish_eq_iff`).
-/

namespace Calculator

/-- Whether all numbers of an expression are spelled with digits and points, one at least. -/
def Expr.Plain (e : Expr) : Prop :=
  ∀ n ∈ e.numbers, n.val ≠ "" ∧ ∀ c ∈ n.val.toList, isNumberChar c = true

theorem Op.char_ne_g (o : Op) : o.char ≠ 'g' := by
  cases o <;> decide

theorem isNumberChar_head?_cons {d : Char} (hd : isNumberChar d = false) (cs : List Char) :
    ∀ c ∈ (d :: cs).head?, isNumberChar c = false := by
  intro c hc
  cases hc
  exact hd

namespace Expr

theorem Plain.inner {s : Span} {e : Expr} (h : (group s e).Plain) : e.Plain := h

theorem Plain.operands {s : Span} {op : Located Op} {d e : Expr} (h : (binary s op d e).Plain) :
    d.Plain ∧ e.Plain := List.forall_mem_append.mp h

theorem Plain.literal {s : Span} {literal : String} (h : (number s literal).Plain) :
    literal ≠ "" ∧ ∀ c ∈ literal.toList, isNumberChar c = true := h _ (List.mem_singleton_self _)

/-! ## How an expression is shown -/

theorem toList_polish_number (s : Span) (literal : String) :
    (number s literal).polish.toList = literal.toList := rfl

theorem toList_polish_group (s : Span) (e : Expr) :
    (group s e).polish.toList = '(' :: 'g' :: ("roup ".toList ++ e.polish.toList ++ [')']) := by
  simp only [polish, String.toList_append]
  rfl

theorem toList_polish_binary (s : Span) (op : Located Op) (d e : Expr) :
    (binary s op d e).polish.toList =
      '(' :: op.val.char :: ' ' :: (d.polish.toList ++ ' ' :: (e.polish.toList ++ [')'])) := by
  simp [polish, Char.toString]

/-- Places are not shown. -/
theorem polish_eraseSpans (e : Expr) : e.eraseSpans.polish = e.polish := by
  induction e with
  | number => rfl
  | group s e ih => rw [eraseSpans, polish, polish, ih]
  | binary s op d e ihd ihe => rw [eraseSpans, polish, polish, ihd, ihe]

theorem Plain.polish_ne_nil {e : Expr} (h : e.Plain) : e.polish.toList ≠ [] := by
  cases e with
  | number s literal => exact fun hnil => h.literal.1 (String.toList_eq_nil_iff.mp hnil)
  | group => rw [toList_polish_group]; exact List.cons_ne_nil _ _
  | binary => rw [toList_polish_binary]; exact List.cons_ne_nil _ _

/-- A number does not begin with a parenthesis. -/
theorem Plain.number_ne_paren {s : Span} {literal : String} (h : (number s literal).Plain)
    (r cs : List Char) : (number s literal).polish.toList ++ r ≠ '(' :: cs := by
  intro heq
  obtain ⟨hne, hchars⟩ := h.literal
  rw [toList_polish_number] at heq
  cases hl : literal.toList with
  | nil => exact hne (String.toList_eq_nil_iff.mp hl)
  | cons c run =>
      rw [hl] at heq hchars
      cases heq
      exact absurd (hchars '(' List.mem_cons_self) (by decide)

/-- **An expression can be told from what follows it**, where that does not go on with a number. -/
theorem polish_append_inj {d e : Expr} (hd : d.Plain) (he : e.Plain) {r s : List Char}
    (hr : ∀ c ∈ r.head?, isNumberChar c = false) (hs : ∀ c ∈ s.head?, isNumberChar c = false)
    (h : d.polish.toList ++ r = e.polish.toList ++ s) : d.eraseSpans = e.eraseSpans ∧ r = s := by
  have hblank (cs : List Char) : ∀ c ∈ (' ' :: cs).head?, isNumberChar c = false :=
    isNumberChar_head?_cons rfl cs
  have hparen (cs : List Char) : ∀ c ∈ (')' :: cs).head?, isNumberChar c = false :=
    isNumberChar_head?_cons rfl cs
  induction d generalizing e r s with
  | number t literal =>
      cases e with
      | number u literal' =>
          rw [toList_polish_number, toList_polish_number] at h
          have hliteral : literal.toList = literal'.toList := by
            rw [← takeWhile_append_of_head hd.literal.2 hr, h,
              takeWhile_append_of_head he.literal.2 hs]
          have hrest : r = s := by
            rw [← dropWhile_append_of_head hd.literal.2 hr, h,
              dropWhile_append_of_head he.literal.2 hs]
          rw [eraseSpans, eraseSpans, String.toList_inj.mp hliteral]
          exact ⟨rfl, hrest⟩
      | group u e =>
          rw [toList_polish_group] at h
          exact absurd h (hd.number_ne_paren _ _)
      | binary u op a e =>
          rw [toList_polish_binary] at h
          exact absurd h (hd.number_ne_paren _ _)
  | group t d ih =>
      rw [toList_polish_group] at h
      cases e with
      | number u literal => exact absurd h.symm (he.number_ne_paren _ _)
      | group u e =>
          simp only [toList_polish_group, List.cons_append, List.append_assoc, List.cons.injEq,
            true_and, List.append_cancel_left_eq] at h
          obtain ⟨htree, hrest⟩ := ih hd.inner he.inner (hparen _) (hparen _) h
          rw [eraseSpans, eraseSpans, htree]
          exact ⟨rfl, List.tail_eq_of_cons_eq hrest⟩
      | binary u op a e =>
          rw [toList_polish_binary] at h
          exact absurd (List.head_eq_of_cons_eq (List.tail_eq_of_cons_eq h)).symm (op.val.char_ne_g)
  | binary t op a d iha ihd =>
      rw [toList_polish_binary] at h
      cases e with
      | number u literal => exact absurd h.symm (he.number_ne_paren _ _)
      | group u e =>
          rw [toList_polish_group] at h
          exact absurd (List.head_eq_of_cons_eq (List.tail_eq_of_cons_eq h)) (op.val.char_ne_g)
      | binary u op' b e =>
          simp only [toList_polish_binary, List.cons_append, List.append_assoc, List.cons.injEq,
            true_and] at h
          obtain ⟨hop, h⟩ := h
          obtain ⟨hlhs, h⟩ := iha hd.operands.1 he.operands.1 (hblank _) (hblank _) h
          obtain ⟨hrhs, hrest⟩ :=
            ihd hd.operands.2 he.operands.2 (hparen _) (hparen _) (List.tail_eq_of_cons_eq h)
          rw [eraseSpans, eraseSpans, hlhs, hrhs, Op.char_inj.mp hop]
          exact ⟨rfl, List.tail_eq_of_cons_eq hrest⟩

end Expr

/-! ## How a forest is shown -/

namespace Forest

/-- How the trees behind the first are shown: a blank is in front of each. -/
def polishBehind (f : Forest) : List Char := f.flatMap fun e => ' ' :: e.polish.toList

theorem polishBehind_cons (e : Expr) (f : Forest) :
    polishBehind (e :: f) = ' ' :: (e.polish.toList ++ polishBehind f) := rfl

theorem isNumberChar_head?_polishBehind (f : Forest) :
    ∀ c ∈ f.polishBehind.head?, isNumberChar c = false := by
  cases f with
  | nil => exact fun c hc => absurd hc (Option.not_mem_none c)
  | cons e f => exact isNumberChar_head?_cons rfl _

theorem toList_polish_cons (e : Expr) (f : Forest) :
    (Forest.polish (e :: f)).toList = e.polish.toList ++ polishBehind f := by
  induction f generalizing e with
  | nil => simp [Forest.polish, polishBehind]
  | cons d f ih =>
      have hcons : (Forest.polish (e :: d :: f)).toList =
          e.polish.toList ++ ' ' :: (Forest.polish (d :: f)).toList := by
        simp [Forest.polish, String.toList_intercalate]
      rw [hcons, ih d, polishBehind_cons]

theorem toList_polish_ne_nil {e : Expr} (f : Forest) (he : e.Plain) :
    (Forest.polish (e :: f)).toList ≠ [] := by
  rw [toList_polish_cons]
  exact List.append_ne_nil_of_left_ne_nil he.polish_ne_nil _

theorem eraseSpans_of_polishBehind {f g : Forest} (hf : ∀ e ∈ f, e.Plain) (hg : ∀ e ∈ g, e.Plain)
    (h : f.polishBehind = g.polishBehind) : f.map Expr.eraseSpans = g.map Expr.eraseSpans := by
  induction f generalizing g with
  | nil =>
      cases g with
      | nil => rfl
      | cons e g => cases h
  | cons d f ih =>
      cases g with
      | nil => cases h
      | cons e g =>
          obtain ⟨hd, hf⟩ := List.forall_mem_cons.mp hf
          obtain ⟨he, hg⟩ := List.forall_mem_cons.mp hg
          rw [polishBehind_cons, polishBehind_cons] at h
          obtain ⟨htree, hrest⟩ := Expr.polish_append_inj hd he (isNumberChar_head?_polishBehind f)
            (isNumberChar_head?_polishBehind g) (List.tail_eq_of_cons_eq h)
          rw [List.map_cons, List.map_cons, htree, ih hf hg hrest]

/-- The trees of a text are plain. -/
theorem plain_of_forestOf {text : String} {f : Forest}
    (h : forestOf (tokensOf (itemsOf text)) = .ok f) : ∀ e ∈ f, e.Plain := by
  intro e he n hn
  have hmem : n ∈ numbersOf (tokensOf (itemsOf text)) := by
    rw [← (forestOf_eq_ok_iff.mp h).numbers_eq]
    exact List.mem_flatMap_of_mem he hn
  have hliteral : IsLiteral n.val := isLiteral_of_mem_tokensOf (mem_numbersOf.mp hmem)
  refine ⟨?_, hliteral.isNumberChar⟩
  obtain ⟨c, run, hl, -⟩ := hliteral
  intro hempty
  rw [hempty] at hl
  cases hl

/-- **The line that shows a forest determines its trees**, as many as there are, but for their
places: which operators, groups and numbers stand where. -/
theorem polish_eq_iff {f g : Forest} (hf : ∀ e ∈ f, e.Plain) (hg : ∀ e ∈ g, e.Plain) :
    f.polish = g.polish ↔ f.map Expr.eraseSpans = g.map Expr.eraseSpans := by
  constructor
  · intro h
    have h : f.polish.toList = g.polish.toList := congrArg String.toList h
    cases f with
    | nil =>
        cases g with
        | nil => rfl
        | cons e g => exact absurd h.symm (toList_polish_ne_nil g (hg e List.mem_cons_self))
    | cons d f =>
        cases g with
        | nil => exact absurd h (toList_polish_ne_nil f (hf d List.mem_cons_self))
        | cons e g =>
            rw [toList_polish_cons, toList_polish_cons] at h
            refine eraseSpans_of_polishBehind hf hg ?_
            rw [polishBehind_cons, polishBehind_cons, h]
  · intro h
    have hshown (f : Forest) : f.polish = Forest.polish (f.map Expr.eraseSpans) := by
      simp only [Forest.polish, List.map_map, Function.comp_def, Expr.polish_eraseSpans]
    rw [hshown f, h, ← hshown]

/-- The product is not written in the first text, and written in the second. -/
theorem polish_eq_iff_implicit_product :
    let number (lo : Nat) (literal : String) : Expr :=
      .number (.between lo (lo + literal.length)) literal
    let f : Forest :=
      [.combine (number 0 "12") ⟨.mul, .emptyAt 2⟩
        (.group (.between 2 7) (.combine (number 3 "3") ⟨.sub, .between 4 5⟩ (number 5 "4"))),
        .group (.between 7 10) (number 8 "5")]
    let g : Forest :=
      [.combine (number 0 "12") ⟨.mul, .between 3 4⟩
        (.group (.between 5 12) (.combine (number 6 "3") ⟨.sub, .between 8 9⟩ (number 10 "4"))),
        .group (.between 13 16) (number 14 "5")]
    forestOf (tokensOf (itemsOf "12(3-4)(5)")) = .ok f ∧
      forestOf (tokensOf (itemsOf "12 * (3 - 4) (5)")) = .ok g ∧ f ≠ g ∧
      f.polish = "(* 12 (group (- 3 4))) (group 5)" ∧ f.polish = g.polish ∧
      f.map Expr.eraseSpans = g.map Expr.eraseSpans := by
  intro number f g
  have hf : forestOf (tokensOf (itemsOf "12(3-4)(5)")) = .ok f := by decide +kernel
  have hg : forestOf (tokensOf (itemsOf "12 * (3 - 4) (5)")) = .ok g := by decide +kernel
  have hshown : f.polish = g.polish := by decide +kernel
  exact ⟨hf, hg, by decide +kernel, by decide +kernel, hshown,
    (polish_eq_iff (plain_of_forestOf hf) (plain_of_forestOf hg)).mp hshown⟩

end Forest

end Calculator
