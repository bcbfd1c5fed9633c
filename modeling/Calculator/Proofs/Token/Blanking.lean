import Calculator.Proofs.Token.Joining

/-!
# Spaces for what is passed over

A character that is passed over separates tokens as a space does: a text with a space in the place
of every such character has the same symbols, and nothing in it is passed over
(`symbolsOf_blanked`). A space may take fewer bytes than the character, so the tokens move.
-/

namespace Calculator

/-- A text that begins at byte `n`, with a space for every character at one of some places. -/
def blankedAt (places : List Nat) : Nat → List Char → List Char
  | _, [] => []
  | n, c :: cs => (if n ∈ places then ' ' else c) :: blankedAt places (n + c.utf8Size) cs

/-- A text with a space for every character that is passed over. -/
def blanked (text : String) : String :=
  .ofList (blankedAt ((noticesOf (itemsOf text)).map (·.span.lo)) 0 text.toList)

variable {places : List Nat} {n : Nat}

theorem blankedAt_append (a b : List Char) :
    blankedAt places n (a ++ b) =
      blankedAt places n a ++ blankedAt places (n + byteLength a) b := by
  induction a generalizing n with
  | nil => rfl
  | cons c a ih =>
      rw [List.cons_append, blankedAt, blankedAt, ih, byteLength_cons, Nat.add_assoc]
      rfl

/-- Where none of the places is, nothing is replaced. -/
theorem blankedAt_eq_self {cs : List Char}
    (h : ∀ p ∈ places, n ≤ p → n + byteLength cs ≤ p) : blankedAt places n cs = cs := by
  induction cs generalizing n with
  | nil => rfl
  | cons c cs ih =>
      have hc := c.utf8Size_pos
      rw [byteLength_cons] at h
      have hn : n ∉ places := fun hn => by
        have := h n hn (Nat.le_refl n)
        omega
      rw [blankedAt, if_neg hn, ih fun p hp hle => by have := h p hp (by omega); omega]

/-- What begins a text goes on beginning it, or a space does. -/
theorem head?_blankedAt {cs : List Char} {c : Char} (h : c ∈ (blankedAt places n cs).head?) :
    c = ' ' ∨ c ∈ cs.head? := by
  cases cs with
  | nil => cases h
  | cons d cs =>
      rw [blankedAt, List.head?_cons, Option.mem_some] at h
      split at h
      · exact .inl h.symm
      · exact .inr (by rw [h]; rfl)

/-- Whether places are those of the notices among items, as far as they lie behind byte `n`. -/
def NoticePlaces (places : List Nat) (n : Nat) (is : List Item) : Prop :=
  ∀ p, n ≤ p → (p ∈ places ↔ ∃ m : Notice, .notice m ∈ is ∧ m.span.lo = p)

namespace NoticePlaces

theorem of_token {t : Token} {is : List Item} (h : NoticePlaces places n (.token t :: is)) :
    NoticePlaces places n is := by
  intro p hp
  rw [h p hp]
  simp only [List.mem_cons, reduceCtorEq, false_or]

/-- Behind an item the places are those of the notices that follow it. -/
theorem of_cons {i : Item} {is : List Item} (h : NoticePlaces places n (i :: is))
    (hn : n ≤ i.span.hi) (hi : i.span.lo < i.span.hi) : NoticePlaces places i.span.hi is := by
  intro p hp
  rw [h p (Nat.le_trans hn hp)]
  constructor
  · rintro ⟨m, hm, rfl⟩
    rcases List.mem_cons.mp hm with rfl | hm
    · exact absurd hi (Nat.not_lt.mpr hp)
    · exact ⟨m, hm, rfl⟩
  · rintro ⟨m, hm, rfl⟩
    exact ⟨m, List.mem_cons_of_mem _ hm, rfl⟩

/-- In front of what the items tile nothing is replaced. -/
theorem blankedAt_front {front cs : List Char} {is : List Item} (h : NoticePlaces places n is)
    (his : Tiled (n + byteLength front) cs is) : blankedAt places n front = front := by
  refine blankedAt_eq_self fun p hp hle => ?_
  obtain ⟨m, hm, rfl⟩ := (h p hle).mp hp
  obtain ⟨before, -, -, -, -, hlo, -⟩ := his.spells_of_mem hm
  have hlo : m.span.lo = n + byteLength front + byteLength before := hlo
  omega

end NoticePlaces

/-- A token can stand elsewhere, in front of what goes on with a number only if that did before. -/
theorem Item.Spells.move {v : Symbol} {s : Span} {part rest rest' : List Char}
    (h : (Item.token ⟨v, s⟩).Spells part rest) (t : Span)
    (hrest : ∀ c ∈ rest'.head?, c = ' ' ∨ c ∈ rest.head?) :
    (Item.token ⟨v, t⟩).Spells part rest' := by
  cases h with
  | symbol hsymbol => exact .symbol hsymbol
  | number hliteral hnext =>
      refine .number hliteral fun d hd => ?_
      rcases hrest d hd with rfl | hmem
      · rfl
      · exact hnext d hmem

/-- With spaces for its notices, a text that items tile is tiled by tokens with the same symbols. -/
theorem Tiled.exists_blankedAt {cs : List Char} {is : List Item} (h : Tiled n cs is)
    (hplaces : NoticePlaces places n is) (k : Nat) :
    ∃ js, Tiled k (blankedAt places n cs) js ∧ noticesOf js = [] ∧
      (tokensOf js).map Located.val = (tokensOf is).map Located.val := by
  induction h generalizing k with
  | @blank n gap hgap =>
      have hnone : Tiled (n + byteLength gap) [] [] := .blank (List.forall_mem_nil _)
      rw [hplaces.blankedAt_front hnone]
      exact ⟨[], .blank hgap, rfl, rfl⟩
  | @item n gap part rest i is hgap hi hlo hhi his ih =>
      have hpos := hi.byteLength_pos
      have hbehind := ih (hplaces.of_cons (by omega) (by omega))
      have hstart : n + byteLength (gap ++ part) = i.span.hi := by
        rw [byteLength_append]
        omega
      rw [blankedAt_append, hstart]
      cases i with
      | token t =>
          obtain ⟨v, s⟩ := t
          let s' : Span := ⟨k + byteLength gap, _, Nat.le_add_right _ (byteLength part)⟩
          obtain ⟨js, hjs, hnotices, htokens⟩ := hbehind s'.hi
          rw [hplaces.of_token.blankedAt_front (hstart ▸ his)]
          refine ⟨.token ⟨v, s'⟩ :: js, ?_, hnotices, ?_⟩
          · exact .item hgap (hi.move s' fun c => head?_blankedAt) rfl rfl hjs
          · rw [tokensOf_cons, tokensOf_cons, List.map_cons, List.map_cons, htokens]
      | notice m =>
          obtain ⟨js, hjs, hnotices, htokens⟩ := hbehind (k + byteLength (gap ++ [' ']))
          have hfront : Tiled (n + byteLength gap) (part ++ rest) (.notice m :: is) :=
            .item (List.forall_mem_nil _) hi hlo hhi his
          have hplace : n + byteLength gap ∈ places :=
            (hplaces _ (Nat.le_add_right _ _)).mpr ⟨m, List.mem_cons_self, hlo⟩
          -- the character has become a part of the white space in front of what follows
          have hspace : blankedAt places n (gap ++ part) = gap ++ [' '] := by
            cases hi
            rw [blankedAt_append, hplaces.blankedAt_front hfront, blankedAt, if_pos hplace]
            rfl
          have hgap' : Blank (gap ++ [' ']) :=
            List.forall_mem_append.mpr ⟨hgap, List.forall_mem_singleton.mpr rfl⟩
          rw [hspace]
          exact ⟨js, (Tiled.blank hgap').append hjs fun _ _ h => (by cases h), hnotices, htokens⟩

/-! ## A text with spaces for what is passed over -/

theorem noticePlaces_itemsOf (text : String) :
    NoticePlaces ((noticesOf (itemsOf text)).map (·.span.lo)) 0 (itemsOf text) := by
  intro p _
  simp only [List.mem_map, mem_noticesOf]

/-- **Spaces separate as what they stand for did**: the symbols of a text stay, and nothing in it is
passed over any more. -/
theorem symbolsOf_blanked (text : String) :
    symbolsOf (blanked text) = symbolsOf text ∧ noticesOf (itemsOf (blanked text)) = [] := by
  obtain ⟨js, hjs, hnotices, htokens⟩ :=
    (tiled_itemsOf text).exists_blankedAt (noticePlaces_itemsOf text) 0
  have hitems : itemsOf (blanked text) = js := by
    refine (tiled_itemsOf (blanked text)).unique ?_
    rw [blanked, String.toList_ofList]
    exact hjs
  rw [symbolsOf, hitems]
  exact ⟨htokens, hnotices⟩

example : blanked "2×.5(é1)" = "2  5( 1)" := by decide +kernel

end Calculator
