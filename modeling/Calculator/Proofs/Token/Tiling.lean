import Calculator.Token.Cursor

/-!
# The items of a text tile it

A text is tiled by items when it falls into white space and the lexemes of the items, each
item spanning its own lexeme, and no number could have been longer. `items_eq_iff`: the
items that a cursor reads are the only ones that tile what it has before it.
-/

namespace Calculator

/-- Whether a text is white space. -/
def Blank (cs : List Char) : Prop := ∀ c ∈ cs, isSpace c = true

/-- Whether a text is a digit with any digits and points behind it. -/
def IsLiteral (literal : String) : Prop :=
  ∃ c run, literal.toList = c :: run ∧ c.isDigit = true ∧ ∀ d ∈ run, isNumberChar d = true

/-- An item is written `part` where `rest` follows. A number takes all it can. -/
inductive Item.Spells : Item → List Char → List Char → Prop
  | symbol {c : Char} {v : Symbol} {s : Span} {rest : List Char}
      (hsymbol : Symbol.ofChar? c = some v) : Spells (.token ⟨v, s⟩) [c] rest
  | number {literal : String} {s : Span} {rest : List Char} (hliteral : IsLiteral literal)
      (hrest : ∀ d ∈ rest.head?, isNumberChar d = false) :
      Spells (.token ⟨.number literal, s⟩) literal.toList rest
  | notice {c : Char} {s : Span} {rest : List Char} (hspace : isSpace c = false)
      (hsymbol : Symbol.ofChar? c = none) (hdigit : c.isDigit = false) :
      Spells (.notice ⟨c, s⟩) [c] rest

/-- Whether items tile a text that begins at byte `n`. -/
inductive Tiled : Nat → List Char → List Item → Prop
  | blank {n : Nat} {gap : List Char} (hgap : Blank gap) : Tiled n gap []
  | item {n : Nat} {gap part rest : List Char} {i : Item} {is : List Item} (hgap : Blank gap)
      (hi : i.Spells part rest) (hlo : i.span.lo = n + byteLength gap)
      (hhi : i.span.hi = i.span.lo + byteLength part) (his : Tiled i.span.hi rest is) :
      Tiled n (gap ++ part ++ rest) (i :: is)

theorem isSpace_of_ofChar? {c : Char} {v : Symbol} (h : Symbol.ofChar? c = some v) :
    isSpace c = false := by
  unfold Symbol.ofChar? at h
  split at h <;> first | rfl | cases h

theorem toList_text_of_ofChar? {c : Char} {v : Symbol} (h : Symbol.ofChar? c = some v) :
    v.text.toList = [c] := by
  rw [(Symbol.ofChar?_eq_some_iff.mp h).1, Char.toString_eq_singleton, String.toList_singleton]

theorem Op.ofChar?_char (o : Op) : Symbol.ofChar? o.char = some (.op o) := by
  cases o <;> rfl

theorem isDigit_of_ofChar? {c : Char} {v : Symbol} (h : Symbol.ofChar? c = some v) :
    c.isDigit = false := by
  unfold Symbol.ofChar? at h
  split at h <;> first | rfl | cases h

theorem ofChar?_of_isDigit {c : Char} (h : c.isDigit = true) : Symbol.ofChar? c = none := by
  cases hv : Symbol.ofChar? c with
  | none => rfl
  | some v => rw [isDigit_of_ofChar? hv] at h; cases h

theorem isSpace_of_isDigit {c : Char} (h : c.isDigit = true) : isSpace c = false := by
  cases hspace : isSpace c with
  | false => rfl
  | true =>
      simp only [isSpace, Bool.or_eq_true, beq_iff_eq] at hspace
      rcases hspace with (((rfl | rfl) | rfl) | rfl) | rfl <;> cases h

theorem isNumberChar_iff {c : Char} : isNumberChar c = true ↔ c.isDigit = true ∨ c = '.' := by
  rw [isNumberChar, Bool.or_eq_true, beq_iff_eq]

theorem isNumberChar_of_isDigit {c : Char} (h : c.isDigit = true) : isNumberChar c = true :=
  isNumberChar_iff.mpr (.inl h)

theorem IsLiteral.isNumberChar {literal : String} (h : IsLiteral literal) :
    ∀ c ∈ literal.toList, Calculator.isNumberChar c = true := by
  obtain ⟨c, run, hl, hc, hrun⟩ := h
  rw [hl]
  exact List.forall_mem_cons.mpr ⟨isNumberChar_of_isDigit hc, hrun⟩

/-- A lexeme begins with a character that is not white space. -/
theorem Item.Spells.exists_head {i : Item} {part rest : List Char} (h : i.Spells part rest) :
    ∃ c cs, part = c :: cs ∧ isSpace c = false := by
  cases h with
  | symbol hsymbol => exact ⟨_, [], rfl, isSpace_of_ofChar? hsymbol⟩
  | number hliteral =>
      obtain ⟨c, run, hl, hdigit, -⟩ := hliteral
      exact ⟨c, run, hl, isSpace_of_isDigit hdigit⟩
  | notice hspace => exact ⟨_, [], rfl, hspace⟩

theorem Item.Spells.byteLength_pos {i : Item} {part rest : List Char} (h : i.Spells part rest) :
    0 < byteLength part := by
  obtain ⟨c, cs, rfl, -⟩ := h.exists_head
  have := c.utf8Size_pos
  rw [byteLength_cons]
  omega

theorem takeWhile_append_of_head {α : Type} {p : α → Bool} {run rest : List α}
    (hrun : ∀ a ∈ run, p a = true) (hrest : ∀ a ∈ rest.head?, p a = false) :
    (run ++ rest).takeWhile p = run := by
  rw [List.takeWhile_append_of_pos hrun]
  cases rest with
  | nil => simp
  | cons a rest => simp [hrest a rfl]

theorem dropWhile_append_of_head {α : Type} {p : α → Bool} {run rest : List α}
    (hrun : ∀ a ∈ run, p a = true) (hrest : ∀ a ∈ rest.head?, p a = false) :
    (run ++ rest).dropWhile p = rest := by
  rw [List.dropWhile_append_of_pos hrun]
  cases rest with
  | nil => rfl
  | cons a rest => simp [hrest a rfl]

theorem head?_dropWhile {α : Type} {p : α → Bool} {as : List α} {a : α}
    (h : a ∈ (as.dropWhile p).head?) : p a = false := by
  have hnot := List.head?_dropWhile_not p as
  rw [Option.mem_def.mp h] at hnot
  exact hnot

namespace Cursor

theorem skipSpaces_append {start n : Nat} {gap rest : List Char} (hgap : Blank gap)
    (hrest : ∀ c ∈ rest.head?, isSpace c = false) :
    (Cursor.mk start n (gap ++ rest)).skipSpaces = ⟨start, n + byteLength gap, rest⟩ := by
  simp only [skipSpaces, takeWhile_append_of_head hgap hrest, dropWhile_append_of_head hgap hrest]

theorem scan_of_blank {start n : Nat} {gap : List Char} (hgap : Blank gap) :
    (Cursor.mk start n gap).scan = (none, ⟨n + byteLength gap, n + byteLength gap, []⟩) := by
  have hskip : (Cursor.mk start n (gap ++ [])).skipSpaces = ⟨start, n + byteLength gap, []⟩ :=
    skipSpaces_append hgap (by simp)
  rw [List.append_nil] at hskip
  simp only [scan, hskip]

/-- In front of the lexeme of an item, that item is scanned. -/
theorem scan_of_spells {start n : Nat} {gap part rest : List Char} {i : Item} (hgap : Blank gap)
    (hi : i.Spells part rest) (hlo : i.span.lo = n + byteLength gap)
    (hhi : i.span.hi = i.span.lo + byteLength part) :
    (Cursor.mk start n (gap ++ part ++ rest)).scan =
      (some i, ⟨i.span.lo, i.span.hi, rest⟩) := by
  have hskip : (Cursor.mk start n (gap ++ part ++ rest)).skipSpaces =
      ⟨start, n + byteLength gap, part ++ rest⟩ := by
    rw [List.append_assoc]
    refine skipSpaces_append hgap ?_
    obtain ⟨c, cs, rfl, hc⟩ := hi.exists_head
    intro d hd
    cases hd
    exact hc
  have hspan : i.span = (Cursor.mk start (n + byteLength gap) rest).ahead (byteLength part) :=
    Span.ext hlo (hhi.trans (by rw [hlo]; rfl))
  cases hi with
  | @symbol c v s _ hsymbol =>
      cases hspan
      simp only [scan, hskip, List.cons_append, List.nil_append, hsymbol]
      rfl
  | @number literal s _ hliteral hrest =>
      cases hspan
      obtain ⟨c, run, hl, hdigit, hrun⟩ := hliteral
      have hsymbol : Symbol.ofChar? c = none := ofChar?_of_isDigit hdigit
      have hstring : String.ofList (c :: run) = literal := by rw [← hl, String.ofList_toList]
      rw [hl] at hskip
      simp only [scan, hl, hskip, List.cons_append, hsymbol, hdigit, if_true,
        takeWhile_append_of_head hrun hrest, dropWhile_append_of_head hrun hrest, hstring]
      rfl
  | @notice c s _ _ hsymbol hdigit =>
      cases hspan
      simp only [scan, hskip, List.cons_append, List.nil_append, hsymbol, hdigit]
      rfl

/-- Items that tile what a cursor has before it are the items that it reads. -/
theorem items_of_tiled {start n : Nat} {cs : List Char} {is : List Item} (h : Tiled n cs is) :
    (Cursor.mk start n cs).items = is := by
  induction h generalizing start with
  | blank hgap => exact items_of_scan_none (scan_of_blank hgap)
  | item hgap hi hlo hhi _ ih => rw [items_of_scan_some (scan_of_spells hgap hi hlo hhi), ih]

end Cursor

/-- Where no white space stands, a lexeme does. -/
theorem exists_spells {c : Char} (hc : isSpace c = false) (n : Nat) (cs : List Char) :
    ∃ (i : Item) (part rest : List Char), c :: cs = part ++ rest ∧ i.Spells part rest ∧
      i.span.lo = n ∧ i.span.hi = i.span.lo + byteLength part := by
  cases hsymbol : Symbol.ofChar? c with
  | some v =>
      exact ⟨.token ⟨v, ⟨n, n + byteLength [c], Nat.le_add_right _ _⟩⟩, [c], cs, rfl,
        .symbol hsymbol, rfl, rfl⟩
  | none =>
      by_cases hdigit : c.isDigit = true
      · have hl : (String.ofList (c :: cs.takeWhile isNumberChar)).toList =
            c :: cs.takeWhile isNumberChar := String.toList_ofList
        have hliteral : IsLiteral (String.ofList (c :: cs.takeWhile isNumberChar)) :=
          ⟨c, _, hl, hdigit, List.all_eq_true.mp List.all_takeWhile⟩
        refine ⟨.token ⟨.number _, ⟨n, _, Nat.le_add_right n _⟩⟩, _, cs.dropWhile isNumberChar,
          ?_, .number hliteral fun d hd => head?_dropWhile hd, rfl, rfl⟩
        rw [hl, List.cons_append, List.takeWhile_append_dropWhile]
      · exact ⟨.notice ⟨c, ⟨n, n + byteLength [c], Nat.le_add_right _ _⟩⟩, [c], cs, rfl,
          .notice hc hsymbol (Bool.eq_false_iff.mpr hdigit), rfl, rfl⟩

/-- In front of a text stands white space, and then a lexeme unless that is all. -/
theorem blank_or_exists_spells (n : Nat) (cs : List Char) :
    Blank cs ∨ ∃ (gap part rest : List Char) (i : Item), cs = gap ++ part ++ rest ∧ Blank gap ∧
      i.Spells part rest ∧ i.span.lo = n + byteLength gap ∧
      i.span.hi = i.span.lo + byteLength part := by
  have hcs : cs.takeWhile isSpace ++ cs.dropWhile isSpace = cs := List.takeWhile_append_dropWhile
  have hgap : Blank (cs.takeWhile isSpace) := List.all_eq_true.mp List.all_takeWhile
  cases hrest : cs.dropWhile isSpace with
  | nil =>
      rw [hrest, List.append_nil] at hcs
      exact .inl (hcs ▸ hgap)
  | cons c tail =>
      have hc : isSpace c = false := head?_dropWhile (by rw [hrest]; rfl)
      obtain ⟨i, part, rest, hpart, hi, hlo, hhi⟩ :=
        exists_spells hc (n + byteLength (cs.takeWhile isSpace)) tail
      refine .inr ⟨cs.takeWhile isSpace, part, rest, i, ?_, hgap, hi, hlo, hhi⟩
      rw [List.append_assoc, ← hpart, ← hrest, hcs]

theorem exists_tiled (n : Nat) (cs : List Char) : ∃ is, Tiled n cs is := by
  -- white space may be empty, but a lexeme is not: what is behind it is shorter
  induction hk : cs.length using Nat.strongRecOn generalizing n cs with
  | _ k ih =>
      rcases blank_or_exists_spells n cs with hblank | ⟨gap, part, rest, i, rfl, hgap, hi, hlo, hhi⟩
      · exact ⟨[], .blank hblank⟩
      · have hlen : rest.length < k := by
          obtain ⟨_, _, rfl, -⟩ := hi.exists_head
          rw [← hk]
          simp only [List.length_append, List.length_cons]
          omega
        obtain ⟨is, his⟩ := ih _ hlen i.span.hi rest rfl
        exact ⟨i :: is, .item hgap hi hlo hhi his⟩

/-- **A cursor reads exactly the items that tile what it has before it.** -/
theorem Cursor.items_eq_iff {c : Cursor} {is : List Item} :
    c.items = is ↔ Tiled c.byte c.rest is := by
  obtain ⟨js, hjs⟩ := exists_tiled c.byte c.rest
  have hitems : c.items = js := items_of_tiled hjs
  constructor
  · intro his
    rw [← his, hitems]
    exact hjs
  · exact fun h => items_of_tiled h

theorem tiled_itemsOf (text : String) : Tiled 0 text.toList (itemsOf text) :=
  Cursor.items_eq_iff (c := Cursor.ofText text.toList).mp rfl

end Calculator
