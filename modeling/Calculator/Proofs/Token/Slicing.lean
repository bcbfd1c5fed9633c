import Calculator.Proofs.Token.Tiling

/-!
# Tilings of a part of a text

What tiles a text tiles its parts: cut in front of one item and behind another, the text falls
into parts that the items of each part tile; and where no number is cut in two, tilings of the
parts make one of the whole (`Tiled.append`). A tiling does not depend on where the text stands:
moved with it, the items tile it still. So the items of a slice, read on their own, are the items
that the whole text has there, moved to its beginning (`Tiled.items_slice`).
-/

namespace Calculator

/-- Something moved right by `n` bytes. -/
def Located.shift {α : Type} (x : Located α) (n : Nat) : Located α := ⟨x.val, x.span.shift n⟩

/-- An item moved right by `n` bytes. -/
def Item.shift (n : Nat) : Item → Item
  | token t => token (t.shift n)
  | notice m => notice (m.shift n)

@[simp] theorem Located.shift_val {α : Type} (x : Located α) (n : Nat) : (x.shift n).val = x.val :=
  rfl

@[simp] theorem Located.shift_span {α : Type} (x : Located α) (n : Nat) :
    (x.shift n).span = x.span.shift n := rfl

@[simp] theorem Item.shift_span (i : Item) (n : Nat) : (i.shift n).span = i.span.shift n := by
  cases i <;> rfl

theorem tokensOf_map_shift (items : List Item) (n : Nat) :
    tokensOf (items.map (Item.shift n)) = (tokensOf items).map (·.shift n) := by
  rw [tokensOf, tokensOf, List.filterMap_map, List.map_filterMap]
  congr 1
  funext i
  cases i <;> rfl

theorem noticesOf_map_shift (items : List Item) (n : Nat) :
    noticesOf (items.map (Item.shift n)) = (noticesOf items).map (·.shift n) := by
  rw [noticesOf, noticesOf, List.filterMap_map, List.map_filterMap]
  congr 1
  funext i
  cases i <;> rfl

theorem tokensOf_append (is js : List Item) : tokensOf (is ++ js) = tokensOf is ++ tokensOf js :=
  List.filterMap_append

theorem noticesOf_append (is js : List Item) :
    noticesOf (is ++ js) = noticesOf is ++ noticesOf js :=
  List.filterMap_append

theorem tokensOf_cons (t : Token) (is : List Item) :
    tokensOf (.token t :: is) = t :: tokensOf is := List.filterMap_cons_some (f := Item.token?) rfl

/-- Where the tokens of items can be cut in front of one, the items can. -/
theorem exists_items_of_tokens {items : List Item} {us vs : List Token} {t : Token}
    (h : tokensOf items = us ++ t :: vs) :
    ∃ is js, items = is ++ .token t :: js ∧ tokensOf is = us ∧ tokensOf js = vs := by
  obtain ⟨is, ks, rfl, his, hks⟩ := List.filterMap_eq_append_iff.mp h
  obtain ⟨ns, i, js, rfl, hns, hi, hjs⟩ := List.filterMap_eq_cons_iff.mp hks
  cases i with
  | notice m => cases hi
  | token u =>
      cases hi
      have hnone : tokensOf ns = [] := List.filterMap_eq_nil_iff.mpr hns
      have hfront : tokensOf is = us := his
      refine ⟨is ++ ns, js, by rw [List.append_assoc], ?_, hjs⟩
      rw [tokensOf_append, hfront, hnone, List.append_nil]

/-- Where tokens are cut in three, their items are, and those of the middle begin and end with
tokens. -/
theorem exists_items_of_append {items : List Item} {us vs ws : List Token} (hne : vs ≠ [])
    (h : tokensOf items = us ++ vs ++ ws) :
    ∃ is js ks, items = is ++ js ++ ks ∧ tokensOf is = us ∧ tokensOf js = vs ∧ tokensOf ks = ws ∧
      js.head? = vs.head?.map .token ∧ js.getLast? = vs.getLast?.map .token := by
  rcases List.eq_nil_or_concat vs with hnil | ⟨vs', v, hvs⟩
  · exact absurd hnil hne
  rw [List.concat_eq_append] at hvs
  obtain ⟨t, ts, hts⟩ := List.exists_cons_of_ne_nil hne
  -- cut off what is behind the last token, and then what is in front of the first
  have hend : tokensOf items = (us ++ vs') ++ v :: ws := by
    rw [h, hvs]
    simp only [List.append_assoc, List.cons_append, List.nil_append]
  obtain ⟨js, ks, rfl, hjs, hks⟩ := exists_items_of_tokens hend
  have hfront : tokensOf (js ++ [.token v]) = us ++ t :: ts := by
    rw [tokensOf_append, hjs, ← hts, hvs, List.append_assoc]
    rfl
  obtain ⟨is, ls, hitems, his, hls⟩ := exists_items_of_tokens hfront
  have hlast : (is ++ .token t :: ls).getLast? = some (.token v) := by
    rw [← hitems, List.getLast?_concat]
  rw [List.getLast?_append, List.getLast?_cons, Option.some_or] at hlast
  refine ⟨is, .token t :: ls, ks, ?_, his, ?_, hks, ?_, ?_⟩
  · rw [← hitems, List.append_assoc, List.singleton_append]
  · rw [tokensOf_cons, hls, hts]
  · rw [hts]
    rfl
  · rw [hvs, List.getLast?_concat, List.getLast?_cons, hlast]
    rfl

/-- Consecutive tokens are the tokens of consecutive items, which begin and end with them. -/
theorem exists_items_of_consecutive {items : List Item} {us : List Token} (hne : us ≠ [])
    (h : us <:+: tokensOf items) :
    ∃ is js ks, items = is ++ js ++ ks ∧ tokensOf js = us ∧
      js.head? = us.head?.map .token ∧ js.getLast? = us.getLast?.map .token := by
  obtain ⟨before, after, hcut⟩ := h
  obtain ⟨is, js, ks, hitems, -, hjs, -, hends⟩ := exists_items_of_append hne hcut.symm
  exact ⟨is, js, ks, hitems, hjs, hends⟩

/-- A lexeme stays one when less follows it. -/
theorem Item.Spells.of_append {i : Item} {part rest after : List Char}
    (h : i.Spells part (rest ++ after)) : i.Spells part rest := by
  cases h with
  | symbol hsymbol => exact .symbol hsymbol
  | notice hspace hsymbol hdigit => exact .notice hspace hsymbol hdigit
  | number hliteral hrest =>
      refine .number hliteral ?_
      intro d hd
      refine hrest d ?_
      cases rest with
      | nil => cases hd
      | cons c rest => exact hd

/-- A lexeme stays one when more follows it, unless that is a number going on. -/
theorem Item.Spells.append {i : Item} {part rest after : List Char} (h : i.Spells part rest)
    (hcut : ∀ literal s, i = .token ⟨.number literal, s⟩ → rest = [] →
      ∀ d ∈ after.head?, isNumberChar d = false) :
    i.Spells part (rest ++ after) := by
  cases h with
  | symbol hsymbol => exact .symbol hsymbol
  | notice hspace hsymbol hdigit => exact .notice hspace hsymbol hdigit
  | @number literal s _ hliteral hrest =>
      refine .number hliteral ?_
      cases rest with
      | cons d rest => exact hrest
      | nil => exact hcut literal s rfl rfl

theorem Item.Spells.shift {i : Item} {part rest : List Char} (h : i.Spells part rest) (n : Nat) :
    (i.shift n).Spells part rest := by
  cases h with
  | symbol hsymbol => exact .symbol hsymbol
  | notice hspace hsymbol hdigit => exact .notice hspace hsymbol hdigit
  | number hliteral hrest => exact .number hliteral hrest

namespace Tiled

variable {n : Nat} {cs : List Char} {is js : List Item}

theorem unique (his : Tiled n cs is) (hjs : Tiled n cs js) : is = js := by
  have hitems : (Cursor.mk 0 n cs).items = is := Cursor.items_of_tiled his
  rw [← hitems]
  exact Cursor.items_of_tiled hjs

theorem shift (h : Tiled n cs is) (k : Nat) : Tiled (n + k) cs (is.map (Item.shift k)) := by
  induction h with
  | blank hgap => exact .blank hgap
  | @item n gap part rest i is hgap hi hlo hhi _ ih =>
      refine .item hgap (hi.shift k) ?_ ?_ ?_
      · rw [Item.shift_span, Span.shift_lo, hlo, Nat.add_right_comm]
      · rw [Item.shift_span, Span.shift_lo, Span.shift_hi, hhi, Nat.add_right_comm]
      · rw [Item.shift_span, Span.shift_hi]
        exact ih

/-- What tiles a text from byte `n` on is the text's own items, moved there. -/
theorem eq_map_shift (h : Tiled n cs is) : is = (itemsOf (.ofList cs)).map (Item.shift n) := by
  have hown : Tiled 0 cs (itemsOf (.ofList cs)) := by
    have := tiled_itemsOf (.ofList cs)
    rwa [String.toList_ofList] at this
  have hmoved := hown.shift n
  rw [Nat.zero_add] at hmoved
  exact h.unique hmoved

/-- In front of an item a text is cut: the items before it tile what is in front of its first byte,
and the items from it on tile the rest. -/
theorem exists_drop {i : Item} (h : Tiled n cs (is ++ i :: js)) :
    ∃ before part, cs = before ++ part ∧ i.span.lo = n + byteLength before ∧
      Tiled n before is ∧ Tiled i.span.lo part (i :: js) := by
  have hnone : Blank [] := List.forall_mem_nil _
  induction is generalizing n cs with
  | nil =>
      cases h with
      | @item _ gap part rest _ _ hgap hi hlo hhi his =>
          exact ⟨gap, part ++ rest, List.append_assoc gap part rest, hlo, .blank hgap,
            .item hnone hi rfl hhi his⟩
  | cons k is ih =>
      cases h with
      | @item _ gap part rest _ _ hgap hk hlo hhi his =>
          obtain ⟨before, part', rfl, hlo', hbefore, htiled⟩ := ih his
          refine ⟨gap ++ part ++ before, part', (List.append_assoc _ _ _).symm, ?_,
            .item hgap hk.of_append hlo hhi hbefore, htiled⟩
          rw [hlo', hhi, hlo]
          simp only [byteLength_append]
          omega

/-- Behind an item a text is cut: the items up to it tile what is in front of its last byte, and the
others tile the rest. -/
theorem exists_take {i : Item} (h : Tiled n cs (is ++ js)) (hlast : is.getLast? = some i) :
    ∃ part after, cs = part ++ after ∧ i.span.hi = n + byteLength part ∧ Tiled n part is ∧
      Tiled i.span.hi after js := by
  have hnone : Blank [] := List.forall_mem_nil _
  induction is generalizing n cs with
  | nil => cases hlast
  | cons k is ih =>
      cases h with
      | @item _ gap part rest _ _ hgap hk hlo hhi his =>
          by_cases hnil : is = []
          · subst hnil
            have hki : k = i := Option.some.inj hlast
            subst hki
            refine ⟨gap ++ part, rest, rfl, ?_, ?_, his⟩
            · rw [hhi, hlo, byteLength_append, Nat.add_assoc]
            · have hk' : k.Spells part ([] ++ rest) := hk
              rw [← List.append_nil (gap ++ part)]
              exact .item hgap hk'.of_append hlo hhi (.blank hnone)
          · rw [List.getLast?_cons_of_ne_nil hnil] at hlast
            obtain ⟨part', after, rfl, hhi', htiled, hafter⟩ := ih his hlast
            refine ⟨gap ++ part ++ part', after, (List.append_assoc _ _ _).symm, ?_,
              .item hgap hk.of_append hlo hhi htiled, hafter⟩
            rw [hhi', hhi, hlo]
            simp only [byteLength_append]
            omega

/-- A text with items between the first byte of one and the last byte of another is cut there, and
each of its three parts is tiled. -/
theorem exists_cut {ks : List Item} {s : Span} (h : Tiled 0 cs (is ++ js ++ ks))
    (hlo : js.head?.map (·.span.lo) = some s.lo) (hhi : js.getLast?.map (·.span.hi) = some s.hi) :
    ∃ before part after, cs = before ++ part ++ after ∧ byteLength before = s.lo ∧
      byteLength before + byteLength part = s.hi ∧
      Tiled 0 before is ∧ Tiled s.lo part js ∧ Tiled s.hi after ks := by
  obtain ⟨i, hfirst, hi⟩ := Option.map_eq_some_iff.mp hlo
  obtain ⟨j, hlast, hj⟩ := Option.map_eq_some_iff.mp hhi
  obtain ⟨js', rfl⟩ := List.head?_eq_some_iff.mp hfirst
  rw [List.append_assoc] at h
  obtain ⟨before, behind, rfl, hbefore, hfront, hbehind⟩ := h.exists_drop
  have hbehind : Tiled i.span.lo behind ((i :: js') ++ ks) := hbehind
  obtain ⟨part, after, rfl, hpart, htiled, hafter⟩ := hbehind.exists_take hlast
  rw [hi] at hbefore hpart htiled
  rw [hj] at hpart hafter
  exact ⟨before, part, after, (List.append_assoc _ _ _).symm, by omega, by omega, hfront, htiled,
    hafter⟩

/-- Two tilings are one, where no number at the end of the first text goes on into the second. -/
theorem append {a b : List Char} (ha : Tiled n a is) (hb : Tiled (n + byteLength a) b js)
    (hcut : ∀ literal s, .token ⟨.number literal, s⟩ ∈ is → s.hi = n + byteLength a →
      ∀ d ∈ b.head?, isNumberChar d = false) :
    Tiled n (a ++ b) (is ++ js) := by
  induction ha with
  | @blank n gap hgap =>
      cases hb with
      | blank hgap' => exact .blank (List.forall_mem_append.mpr ⟨hgap, hgap'⟩)
      | @item _ gap' part rest j js hgap' hj hlo hhi hjs =>
          rw [← List.append_assoc, ← List.append_assoc]
          refine .item (List.forall_mem_append.mpr ⟨hgap, hgap'⟩) hj ?_ hhi hjs
          rw [hlo, byteLength_append, Nat.add_assoc]
  | @item n gap part rest i is hgap hi hlo hhi his ih =>
      have hend : n + byteLength (gap ++ part ++ rest) = i.span.hi + byteLength rest := by
        simp only [byteLength_append]
        omega
      rw [hend] at hb hcut
      rw [List.append_assoc]
      refine .item hgap (hi.append ?_) hlo hhi (ih hb ?_)
      · rintro literal s rfl rfl
        exact hcut literal s List.mem_cons_self rfl
      · exact fun literal s ht => hcut literal s (List.mem_cons_of_mem _ ht)

/-- **The items of a slice** that begins with one item and ends with another are the items the
text has there, moved to the beginning. -/
theorem items_slice {ks : List Item} {s : Span} (h : Tiled 0 cs (is ++ js ++ ks))
    (hlo : js.head?.map (·.span.lo) = some s.lo) (hhi : js.getLast?.map (·.span.hi) = some s.hi) :
    ∃ part, s.slice? cs = some part ∧ js = (itemsOf (.ofList part)).map (Item.shift s.lo) := by
  obtain ⟨before, part, after, htext, hbefore, hpart, -, htiled, -⟩ := h.exists_cut hlo hhi
  exact ⟨part, Span.slice?_eq_some_iff.mpr ⟨before, after, htext, hbefore, hpart⟩,
    htiled.eq_map_shift⟩

end Tiled

end Calculator
