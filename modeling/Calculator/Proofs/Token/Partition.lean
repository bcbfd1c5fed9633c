import Calculator.Proofs.Token.Tiling

/-!
# The items of a text partition it

Tokens and passed-over characters, taken together in the order of their places, share out
a text: each covers its own characters, no two meet, and what they leave is white space.
All of it is read off the tiling of the text, in which every item has its lexeme with what
stands before and behind it, `Tiled.spells_of_mem`.
-/

namespace Calculator

/-- What items leave of a text from byte `n` to byte `total`: the part before each item and
the part behind the last. -/
def gaps (n total : Nat) : List Item → List Span
  | [] => [.between n total]
  | i :: is => .between n i.span.lo :: gaps i.span.hi total is

/-- Whether items partition a text. -/
structure Partition (text : List Char) (items : List Item) : Prop where
  /-- No item is empty. -/
  nonempty : ∀ i ∈ items, i.span.lo < i.span.hi
  /-- The items stand in order, and no two share a byte. -/
  ordered : items.Pairwise fun i j => i.span.hi ≤ j.span.lo
  /-- What they leave is white space. -/
  blank : ∀ s ∈ gaps 0 (byteLength text) items, ∃ gap, s.slice? text = some gap ∧ Blank gap
  /-- A token covers its text. -/
  lexeme : ∀ t ∈ tokensOf items, t.span.slice? text = some t.val.text.toList
  /-- A notice covers its character, and no token begins with that. -/
  passedOver : ∀ n ∈ noticesOf items, n.span.slice? text = some [n.val] ∧
    isSpace n.val = false ∧ n.val ∉ ['(', ')', '+', '-', '*', '/'] ∧ n.val.isDigit = false
  /-- A number is a literal that the next character cannot go on with. -/
  longest : ∀ t ∈ tokensOf items, ∀ literal, t.val = .number literal → IsLiteral literal ∧
    ∀ before c after, text = before ++ c :: after → byteLength before = t.span.hi →
      isNumberChar c = false

@[simp] theorem mem_tokensOf {items : List Item} {t : Token} :
    t ∈ tokensOf items ↔ .token t ∈ items := by
  constructor
  · intro h
    obtain ⟨i, hi, ht⟩ := List.mem_filterMap.mp h
    cases i with
    | token u => cases ht; exact hi
    | notice n => cases ht
  · exact fun h => List.mem_filterMap.mpr ⟨_, h, rfl⟩

@[simp] theorem mem_noticesOf {items : List Item} {n : Notice} :
    n ∈ noticesOf items ↔ .notice n ∈ items := by
  constructor
  · intro h
    obtain ⟨i, hi, hn⟩ := List.mem_filterMap.mp h
    cases i with
    | token t => cases hn
    | notice m => cases hn; exact hi
  · exact fun h => List.mem_filterMap.mpr ⟨_, h, rfl⟩

/-- Every item is a token or a notice, and none is lost. -/
theorem perm_tokensOf_noticesOf (items : List Item) :
    items.Perm ((tokensOf items).map .token ++ (noticesOf items).map .notice) := by
  induction items with
  | nil => exact .nil
  | cons i is ih =>
      cases i with
      | token t => exact ih.cons _
      | notice n => exact (ih.cons _).trans List.perm_middle.symm

theorem not_mem_of_ofChar? {c : Char} (h : Symbol.ofChar? c = none) :
    c ∉ ['(', ')', '+', '-', '*', '/'] := by
  intro hc
  simp only [List.mem_cons, List.not_mem_nil, or_false] at hc
  rcases hc with rfl | rfl | rfl | rfl | rfl | rfl <;> cases h

/-- The lexeme of a token is the text of its symbol. -/
theorem Item.Spells.eq_text {t : Token} {part rest : List Char}
    (h : (Item.token t).Spells part rest) : part = t.val.text.toList := by
  cases h with
  | symbol hsymbol => exact (toList_text_of_ofChar? hsymbol).symm
  | number => rfl

/-- A number is written as a literal, with nothing behind it that could belong to it. -/
theorem Item.Spells.of_number {literal : String} {s : Span} {part rest : List Char}
    (h : (Item.token ⟨.number literal, s⟩).Spells part rest) :
    IsLiteral literal ∧ ∀ d ∈ rest.head?, isNumberChar d = false := by
  cases h with
  | symbol hsymbol => exact absurd rfl ((Symbol.ofChar?_eq_some_iff.mp hsymbol).2 literal)
  | number hliteral hrest => exact ⟨hliteral, hrest⟩

namespace Tiled

/-- Every item stands in the text as its lexeme. -/
theorem spells_of_mem {n : Nat} {cs : List Char} {is : List Item} (h : Tiled n cs is) {i : Item}
    (hi : i ∈ is) :
    ∃ before part after, cs = before ++ part ++ after ∧ i.Spells part after ∧
      i.span.lo = n + byteLength before ∧ i.span.hi = i.span.lo + byteLength part := by
  induction h with
  | blank => cases hi
  | @item n gap part rest j is hgap hj hlo hhi his ih =>
      rcases List.mem_cons.mp hi with rfl | hi
      · exact ⟨gap, part, rest, rfl, hj, hlo, hhi⟩
      · obtain ⟨before, part', after, rfl, hi', hlo', hhi'⟩ := ih hi
        refine ⟨gap ++ part ++ before, part', after, by simp, hi', ?_, hhi'⟩
        rw [hlo', hhi, hlo]
        simp only [byteLength_append]
        omega

theorem pairwise {n : Nat} {cs : List Char} {is : List Item} (h : Tiled n cs is) :
    is.Pairwise fun i j => i.span.hi ≤ j.span.lo := by
  induction h with
  | blank => exact .nil
  | item hgap hi hlo hhi his ih =>
      refine List.pairwise_cons.mpr ⟨fun j hj => ?_, ih⟩
      obtain ⟨before, -, -, -, -, hj, -⟩ := his.spells_of_mem hj
      omega

/-- Whatever part of the text the items leave is white space. -/
theorem blank_of_mem_gaps {n : Nat} {cs : List Char} {is : List Item} (h : Tiled n cs is)
    {s : Span} (hs : s ∈ gaps n (n + byteLength cs) is) :
    ∃ before gap after, cs = before ++ gap ++ after ∧ Blank gap ∧
      s.lo = n + byteLength before ∧ s.hi = s.lo + byteLength gap := by
  induction h with
  | @blank n gap hgap =>
      cases List.mem_singleton.mp hs
      rw [Span.between_of_le (Nat.le_add_right n _)]
      exact ⟨[], gap, [], by simp, hgap, rfl, rfl⟩
  | @item n gap part rest i is hgap hi hlo hhi his ih =>
      rcases List.mem_cons.mp hs with rfl | hs
      · rw [Span.between_of_le (hlo ▸ Nat.le_add_right n _)]
        exact ⟨[], gap, part ++ rest, by simp, hgap, rfl, hlo⟩
      · have htotal : n + byteLength (gap ++ part ++ rest) = i.span.hi + byteLength rest := by
          simp only [byteLength_append]
          omega
        rw [htotal] at hs
        obtain ⟨before, gap', after, rfl, hgap', hlo', hhi'⟩ := ih hs
        refine ⟨gap ++ part ++ before, gap', after, by simp, hgap', ?_, hhi'⟩
        rw [hlo', hhi, hlo]
        simp only [byteLength_append]
        omega

variable {text : List Char} {is : List Item}

theorem slice?_of_mem_gaps (h : Tiled 0 text is) {s : Span}
    (hs : s ∈ gaps 0 (byteLength text) is) : ∃ gap, s.slice? text = some gap ∧ Blank gap := by
  rw [← Nat.zero_add (byteLength text)] at hs
  obtain ⟨before, gap, after, htext, hgap, hlo, hhi⟩ := h.blank_of_mem_gaps hs
  refine ⟨gap, Span.slice?_eq_some_iff.mpr ⟨before, after, htext, ?_, ?_⟩, hgap⟩ <;> omega

theorem slice?_of_mem (h : Tiled 0 text is) {i : Item} (hi : i ∈ is) :
    ∃ part after, i.Spells part after ∧ i.span.slice? text = some part := by
  obtain ⟨before, part, after, htext, hspells, hlo, hhi⟩ := h.spells_of_mem hi
  refine ⟨part, after, hspells, Span.slice?_eq_some_iff.mpr ⟨before, after, htext, ?_, ?_⟩⟩ <;>
    omega

/-- Behind a number no character stands with which it could go on. -/
theorem longest_of_mem (h : Tiled 0 text is) {literal : String} {s : Span}
    (ht : .token ⟨.number literal, s⟩ ∈ is) {before after : List Char} {c : Char}
    (htext : text = before ++ c :: after) (hbefore : byteLength before = s.hi) :
    isNumberChar c = false := by
  obtain ⟨before', part, after', htext', hspells, hlo, hhi⟩ := h.spells_of_mem ht
  have hcut : byteLength (before' ++ part) = s.hi := by
    simp only [Item.span] at hlo hhi
    rw [byteLength_append]
    omega
  -- a text can be cut at one byte in one way only
  have hsame : some (before, c :: after) = some (before' ++ part, after') := by
    rw [← splitBytes?_eq_some_iff.mpr ⟨htext, hbefore⟩,
      ← splitBytes?_eq_some_iff.mpr ⟨htext', hcut⟩]
  cases hsame
  exact hspells.of_number.2 c rfl

end Tiled

theorem slice?_of_mem_tokensOf {text : String} {t : Token} (h : t ∈ tokensOf (itemsOf text)) :
    t.span.slice? text.toList = some t.val.text.toList := by
  obtain ⟨part, _, hspells, hslice⟩ := (tiled_itemsOf text).slice?_of_mem (mem_tokensOf.mp h)
  rw [← hspells.eq_text]
  exact hslice

theorem slice?_of_mem_noticesOf {text : String} {n : Notice} (h : n ∈ noticesOf (itemsOf text)) :
    n.span.slice? text.toList = some [n.val] := by
  obtain ⟨part, _, hspells, hslice⟩ := (tiled_itemsOf text).slice?_of_mem (mem_noticesOf.mp h)
  cases hspells
  exact hslice

theorem lo_lt_hi_of_mem_tokensOf {text : String} {t : Token} (h : t ∈ tokensOf (itemsOf text)) :
    t.span.lo < t.span.hi := by
  obtain ⟨_, part, _, -, hspells, -, hhi⟩ := (tiled_itemsOf text).spells_of_mem (mem_tokensOf.mp h)
  have hhi : t.span.hi = t.span.lo + byteLength part := hhi
  have := hspells.byteLength_pos
  omega

/-- **The tokens and notices of any text partition it**: in the order of their places they
are apart, each covers its lexeme, numbers go on as far as they can, a notice is a character
with which no token begins, and all the rest is white space. -/
theorem itemsOf_partition (text : String) :
    (itemsOf text).Perm ((tokensOf (itemsOf text)).map .token ++
        (noticesOf (itemsOf text)).map .notice) ∧
      Partition text.toList (itemsOf text) := by
  have htiled : Tiled 0 text.toList (itemsOf text) := tiled_itemsOf text
  refine ⟨perm_tokensOf_noticesOf _, ?_, htiled.pairwise, ?_, ?_, ?_, ?_⟩
  · intro i hi
    obtain ⟨_, part, _, -, hspells, -, hhi⟩ := htiled.spells_of_mem hi
    have := hspells.byteLength_pos
    omega
  · intro s hs
    exact htiled.slice?_of_mem_gaps hs
  · intro t ht
    obtain ⟨part, _, hspells, hslice⟩ := htiled.slice?_of_mem (mem_tokensOf.mp ht)
    rw [← hspells.eq_text]
    exact hslice
  · intro m hm
    obtain ⟨part, _, hspells, hslice⟩ := htiled.slice?_of_mem (mem_noticesOf.mp hm)
    cases hspells with
    | notice hspace hsymbol hdigit =>
        exact ⟨hslice, hspace, not_mem_of_ofChar? hsymbol, hdigit⟩
  · intro t ht literal hliteral
    obtain ⟨v, s⟩ := t
    subst hliteral
    obtain ⟨part, _, hspells, -⟩ := htiled.slice?_of_mem (mem_tokensOf.mp ht)
    exact ⟨hspells.of_number.1, fun _ _ _ => htiled.longest_of_mem (mem_tokensOf.mp ht)⟩

end Calculator
