import Calculator.Proofs.Token.Partition
import Calculator.Proofs.Token.Slicing

/-!
# Texts put together

Where no number goes on from one text into the next, each keeps its items when they are put
together; those of the second move with it (`tokensOf_noticesOf_append_iff`). Which symbols a text
has, places apart, is then the sequence of what its parts have.
-/

namespace Calculator

/-- The symbols of a text, in order. -/
def symbolsOf (text : String) : List Symbol := (tokensOf (itemsOf text)).map Located.val

/-- Whether two texts can be put together without making one number out of two. -/
def Apart (a b : String) : Prop :=
  ∀ c ∈ a.toList.getLast?, isNumberChar c = true → ∀ d ∈ b.toList.head?, isNumberChar d = false

theorem apart_of_getLast? {a : String} (h : ∀ c ∈ a.toList.getLast?, isNumberChar c = false)
    (b : String) : Apart a b := by
  intro c hc hnumber
  rw [h c hc] at hnumber
  cases hnumber

theorem apart_of_head? {b : String} (h : ∀ d ∈ b.toList.head?, isNumberChar d = false)
    (a : String) : Apart a b := fun _ _ _ => h

theorem isNumberChar_of_ofChar? {c : Char} {v : Symbol} (h : Symbol.ofChar? c = some v) :
    isNumberChar c = false := by
  unfold Symbol.ofChar? at h
  split at h <;> first | rfl | cases h

/-- A number that ends where a text ends is written with the last character of the text. -/
theorem Tiled.getLast?_of_number {n : Nat} {cs : List Char} {is : List Item} (h : Tiled n cs is)
    {literal : String} {s : Span} (ht : .token ⟨.number literal, s⟩ ∈ is)
    (hend : s.hi = n + byteLength cs) : ∃ c ∈ cs.getLast?, isNumberChar c = true := by
  obtain ⟨before, part, after, rfl, hspells, hlo, hhi⟩ := h.spells_of_mem ht
  have hafter : after = [] := by
    simp only [Item.span, byteLength_append] at hlo hhi hend
    exact byteLength_eq_zero_iff.mp (by omega)
  have hpart : part = literal.toList := hspells.eq_text
  have hliteral : IsLiteral literal := hspells.of_number.1
  have hnumber := hliteral.isNumberChar
  subst hafter hpart
  obtain ⟨c, run, hl, -⟩ := hliteral
  rw [hl] at hnumber ⊢
  rw [List.append_nil, List.getLast?_append, List.getLast?_eq_some_getLast (List.cons_ne_nil c run)]
  exact ⟨_, rfl, hnumber _ (List.getLast_mem _)⟩

/-- The items of a text stay when another is put behind it, and those of the other move, where no
number goes on. -/
theorem itemsOf_append_of_numbers {a b : String}
    (h : ∀ literal s, .token ⟨.number literal, s⟩ ∈ itemsOf a → s.hi = byteLength a.toList →
      ∀ d ∈ b.toList.head?, isNumberChar d = false) :
    itemsOf (a ++ b) = itemsOf a ++ (itemsOf b).map (Item.shift (byteLength a.toList)) := by
  have hb : Tiled (0 + byteLength a.toList) b.toList
      ((itemsOf b).map (Item.shift (byteLength a.toList))) := (tiled_itemsOf b).shift _
  have htext : Tiled 0 (a ++ b).toList
      (itemsOf a ++ (itemsOf b).map (Item.shift (byteLength a.toList))) := by
    rw [String.toList_append]
    refine (tiled_itemsOf a).append hb ?_
    rwa [Nat.zero_add]
  exact (tiled_itemsOf (a ++ b)).unique htext

/-- **Texts that are apart keep their items.** -/
theorem itemsOf_append {a b : String} (h : Apart a b) :
    itemsOf (a ++ b) = itemsOf a ++ (itemsOf b).map (Item.shift (byteLength a.toList)) := by
  refine itemsOf_append_of_numbers fun literal s ht hend => ?_
  obtain ⟨c, hc, hnumber⟩ := (tiled_itemsOf a).getLast?_of_number ht (by rw [hend, Nat.zero_add])
  exact h c hc hnumber

/-- Whether a text ends with a number that goes on in the text behind it. -/
def NumberGoesOn (a b : String) : Prop :=
  (∃ t ∈ (tokensOf (itemsOf a)).getLast?,
      (∃ literal, t.val = .number literal) ∧ t.span.hi = byteLength a.toList) ∧
    ∃ c ∈ b.toList.head?, c.isDigit = true ∨ c = '.'

/-- Where a token ends with the text, it is the last one. -/
theorem getLast?_tokensOf_of_hi {text : String} {t : Token} (ht : t ∈ tokensOf (itemsOf text))
    (hend : t.span.hi = byteLength text.toList) : (tokensOf (itemsOf text)).getLast? = some t := by
  obtain ⟨us, vs, hcut⟩ := List.append_of_mem ht
  obtain ⟨is, js, hitems, -, hjs⟩ := exists_items_of_tokens hcut
  have htiled : Tiled 0 text.toList ((is ++ [.token t]) ++ js) := by
    rw [List.append_assoc, List.singleton_append, ← hitems]
    exact tiled_itemsOf text
  obtain ⟨part, after, htext, hhi, -, hafter⟩ := htiled.exists_take List.getLast?_concat
  -- no byte is left behind the token, and so no item
  have hnil : after = [] := by
    rw [htext, byteLength_append] at hend
    exact byteLength_eq_zero_iff.mp (by simp only [Item.span] at hhi; omega)
  subst hnil
  have hnone : js = [] := hafter.unique (.blank (List.forall_mem_nil _))
  have hvs : vs = [] := by rw [← hjs, hnone]; rfl
  rw [hcut, hvs, List.getLast?_concat]

/-- **Texts can be read one after the other exactly if no number goes on** from the first into the
second: then the tokens and the notices of both together are those of the first, and behind them
those of the second, moved by the length of the first. -/
theorem tokensOf_noticesOf_append_iff (a b : String) :
    (tokensOf (itemsOf (a ++ b)) =
          tokensOf (itemsOf a) ++ (tokensOf (itemsOf b)).map (·.shift (byteLength a.toList)) ∧
        noticesOf (itemsOf (a ++ b)) =
          noticesOf (itemsOf a) ++ (noticesOf (itemsOf b)).map (·.shift (byteLength a.toList))) ↔
      ¬ NumberGoesOn a b := by
  constructor
  · rintro ⟨htokens, -⟩ ⟨⟨⟨v, s⟩, ht, ⟨literal, hv⟩, hend⟩, c, hc, hnumber⟩
    -- in the text of both, nothing could stand behind the number with which it goes on
    have hmem : ⟨v, s⟩ ∈ tokensOf (itemsOf (a ++ b)) := by
      rw [htokens]
      exact List.mem_append_left _ (List.mem_of_getLast? ht)
    obtain ⟨rest, hb⟩ := List.head?_eq_some_iff.mp hc
    have htext : (a ++ b).toList = a.toList ++ c :: rest := by rw [String.toList_append, hb]
    cases hv
    have hnot := (tiled_itemsOf (a ++ b)).longest_of_mem (mem_tokensOf.mp hmem) htext hend.symm
    rw [isNumberChar_iff.mpr hnumber] at hnot
    cases hnot
  · intro h
    have hitems : itemsOf (a ++ b) =
        itemsOf a ++ (itemsOf b).map (Item.shift (byteLength a.toList)) := by
      refine itemsOf_append_of_numbers fun literal s ht hend d hd => ?_
      have hlast := getLast?_tokensOf_of_hi (mem_tokensOf.mpr ht) hend
      cases hnumber : isNumberChar d with
      | false => rfl
      | true =>
          exact absurd ⟨⟨_, hlast, ⟨literal, rfl⟩, hend⟩, d, hd, isNumberChar_iff.mp hnumber⟩ h
    rw [hitems, tokensOf_append, tokensOf_map_shift, noticesOf_append, noticesOf_map_shift]
    exact ⟨rfl, rfl⟩

theorem tokensOf_itemsOf_append {a b : String} (h : Apart a b) :
    tokensOf (itemsOf (a ++ b)) =
      tokensOf (itemsOf a) ++ (tokensOf (itemsOf b)).map (·.shift (byteLength a.toList)) := by
  rw [itemsOf_append h, tokensOf_append, tokensOf_map_shift]

/-- The symbols of a text do not depend on where it stands. -/
theorem Tiled.map_val_tokensOf {n : Nat} {cs : List Char} {is : List Item} (h : Tiled n cs is) :
    (tokensOf is).map Located.val = symbolsOf (.ofList cs) := by
  rw [h.eq_map_shift, tokensOf_map_shift, List.map_map]
  rfl

/-- **The symbols of texts that are apart** are those of the one and then of the other. -/
theorem symbolsOf_append {a b : String} (h : Apart a b) :
    symbolsOf (a ++ b) = symbolsOf a ++ symbolsOf b := by
  rw [symbolsOf, tokensOf_itemsOf_append h, List.map_append, List.map_map]
  rfl

/-! ## Texts of one item -/

theorem itemsOf_of_spells {text : String} {i : Item} (hi : i.Spells text.toList [])
    (hlo : i.span.lo = 0) (hhi : i.span.hi = byteLength text.toList) : itemsOf text = [i] := by
  have hnone : Blank [] := List.forall_mem_nil _
  have htiled : Tiled 0 ([] ++ text.toList ++ []) [i] :=
    .item hnone hi hlo (by rw [hlo, hhi, Nat.zero_add]) (.blank hnone)
  rw [List.nil_append, List.append_nil] at htiled
  exact (tiled_itemsOf text).unique htiled

theorem toList_toString (c : Char) : c.toString.toList = [c] := by
  rw [Char.toString_eq_singleton, String.toList_singleton]

/-- A text that is a literal is one number. -/
theorem itemsOf_of_literal {literal : String} (h : IsLiteral literal) :
    itemsOf literal =
      [.token ⟨.number literal, ⟨0, byteLength literal.toList, Nat.zero_le _⟩⟩] :=
  itemsOf_of_spells (.number h (by simp)) rfl rfl

/-- A text that is a symbol is that symbol. -/
theorem itemsOf_of_ofChar? {c : Char} {v : Symbol} (h : Symbol.ofChar? c = some v) :
    itemsOf c.toString = [.token ⟨v, ⟨0, c.utf8Size, Nat.zero_le _⟩⟩] := by
  refine itemsOf_of_spells ?_ rfl ?_
  · rw [toList_toString]
    exact .symbol h
  · rw [toList_toString]
    rfl

theorem apart_of_ofChar? {c : Char} {v : Symbol} (h : Symbol.ofChar? c = some v) (b : String) :
    Apart c.toString b := by
  refine apart_of_getLast? ?_ b
  rw [toList_toString]
  rintro _ ⟨⟩
  exact isNumberChar_of_ofChar? h

/-- **A symbol in front of a text** is its first token. -/
theorem tokensOf_itemsOf_cons {c : Char} {v : Symbol} (h : Symbol.ofChar? c = some v) (b : String) :
    tokensOf (itemsOf (c.toString ++ b)) =
      ⟨v, ⟨0, c.utf8Size, Nat.zero_le _⟩⟩ :: (tokensOf (itemsOf b)).map (·.shift c.utf8Size) := by
  rw [tokensOf_itemsOf_append (apart_of_ofChar? h b), itemsOf_of_ofChar? h, toList_toString]
  rfl

theorem symbolsOf_cons {c : Char} {v : Symbol} (h : Symbol.ofChar? c = some v) (b : String) :
    symbolsOf (c.toString ++ b) = v :: symbolsOf b := by
  rw [symbolsOf, tokensOf_itemsOf_cons h, List.map_cons, List.map_map]
  rfl

/-- Nothing goes on into a symbol. -/
theorem apart_of_symbol {c : Char} {v : Symbol} (h : Symbol.ofChar? c = some v) (a b : String) :
    Apart a (c.toString ++ b) := by
  refine apart_of_head? ?_ a
  rw [String.toList_append, toList_toString]
  rintro _ ⟨⟩
  exact isNumberChar_of_ofChar? h

end Calculator
