import Calculator.Proofs.Forest.Canonical
import Calculator.Proofs.Token.Tiling

/-!
# A forest that is written is read again

A canonical forest is written with a space between any two symbols. The spaces keep the
symbols apart, so the text is tiled by tokens with just these symbols; every one of them
takes up some place, and so the tokens form the forest again, but for its places.
-/

namespace Calculator

/-- Whether a forest is as one that is read: its trees are canonical, its numbers literals,
and behind a tree that ends in a number no other begins with a parenthesis. -/
structure Forest.Canonical (f : Forest) : Prop where
  trees : ∀ e ∈ f, e.Canonical
  literals : ∀ literal, .number literal ∈ Forest.symbols f → IsLiteral literal
  apart : ∀ before d e after, f = before ++ d :: e :: after →
    EndsInNumber d.symbols → e.symbols.head? ≠ some .opening

/-- Symbols with a space between any two. -/
def spaced (v : List Symbol) : String := " ".intercalate (v.map Symbol.text)

/-- A forest as it is written, with a space between any two symbols. -/
def Forest.written (f : Forest) : String := spaced (Forest.symbols f)

/-! ## Symbols with spaces between them -/

/-- A symbol is written with its text, where a number is not gone on with. -/
theorem Symbol.spells {v : Symbol} (hv : ∀ literal, v = .number literal → IsLiteral literal)
    (s : Span) {rest : List Char} (hrest : ∀ c ∈ rest.head?, isNumberChar c = false) :
    (Item.token ⟨v, s⟩).Spells v.text.toList rest := by
  have hchar : ∀ c, Symbol.ofChar? c = some v →
      (Item.token ⟨v, s⟩).Spells v.text.toList rest := by
    intro c hc
    rw [toList_text_of_ofChar? hc]
    exact .symbol hc
  cases v with
  | number literal => exact .number (hv literal rfl) hrest
  | op o => exact hchar o.char (Symbol.ofChar?_eq_some_iff.mpr ⟨rfl, fun _ => Symbol.noConfusion⟩)
  | opening => exact hchar '(' rfl
  | closing => exact hchar ')' rfl

@[simp] theorem toList_spaced_singleton (v : Symbol) : (spaced [v]).toList = v.text.toList := by
  simp [spaced]

@[simp] theorem toList_spaced_cons_cons (v w : Symbol) (u : List Symbol) :
    (spaced (v :: w :: u)).toList = v.text.toList ++ ' ' :: (spaced (w :: u)).toList := by
  simp [spaced, String.toList_intercalate]

theorem Tiled.cons_space {n : Nat} {cs : List Char} {is : List Item} (h : Tiled (n + 1) cs is) :
    Tiled n (' ' :: cs) is := by
  cases h with
  | blank hgap => exact .blank (List.forall_mem_cons.mpr ⟨rfl, hgap⟩)
  | @item _ gap part rest i is hgap hi hlo hhi his =>
      refine .item (List.forall_mem_cons.mpr ⟨rfl, hgap⟩) hi ?_ hhi his
      rw [hlo, byteLength_cons, ← Nat.add_assoc]
      rfl

theorem Tiled.cons_token {t : Token} {part rest : List Char} {is : List Item}
    (ht : (Item.token t).Spells part rest) (hhi : t.span.hi = t.span.lo + byteLength part)
    (h : Tiled t.span.hi rest is) : Tiled t.span.lo (part ++ rest) (.token t :: is) := by
  have hgap : Blank [] := List.forall_mem_nil _
  exact .item hgap ht rfl hhi h

/-- Symbols with spaces between them are tiled by tokens with just these symbols, and no
token is empty. -/
theorem exists_tiled_spaced {v : List Symbol}
    (hv : ∀ literal, .number literal ∈ v → IsLiteral literal) (n : Nat) :
    ∃ ts : List Token, Tiled n (spaced v).toList (ts.map .token) ∧ ts.map Located.val = v ∧
      ∀ t ∈ ts, t.span.isEmpty = false := by
  induction v generalizing n with
  | nil => exact ⟨[], .blank (by simp [spaced, Blank]), rfl, by simp⟩
  | cons v w ih =>
      let s : Span := ⟨n, n + byteLength v.text.toList, Nat.le_add_right _ _⟩
      obtain ⟨ts, htiled, hts, hplaced⟩ :=
        ih (fun literal h => hv literal (List.mem_cons_of_mem _ h)) (s.hi + 1)
      -- what follows the first symbol is nothing, or a space and the other symbols
      obtain ⟨rest, hrest, hhead, his⟩ : ∃ rest,
          (spaced (v :: w)).toList = v.text.toList ++ rest ∧
            (∀ c ∈ rest.head?, isNumberChar c = false) ∧ Tiled s.hi rest (ts.map .token) := by
        cases w with
        | nil =>
            cases List.map_eq_nil_iff.mp hts
            exact ⟨[], by simp, by simp, .blank (List.forall_mem_nil _)⟩
        | cons u w =>
            refine ⟨' ' :: (spaced (u :: w)).toList, toList_spaced_cons_cons v u w, ?_,
              htiled.cons_space⟩
            intro c hc
            cases hc
            rfl
      have hspells : (Item.token ⟨v, s⟩).Spells v.text.toList rest := by
        refine Symbol.spells ?_ s hhead
        intro literal hliteral
        refine hv literal ?_
        rw [hliteral]
        exact List.mem_cons_self ..
      have hempty : s.isEmpty = false := by
        have := hspells.byteLength_pos
        simp only [Span.isEmpty, s, beq_eq_false_iff_ne]
        omega
      refine ⟨⟨v, s⟩ :: ts, ?_, by rw [List.map_cons, hts], ?_⟩
      · rw [hrest]
        exact .cons_token hspells rfl his
      · exact List.forall_mem_cons.mpr ⟨hempty, hplaced⟩

/-- **Symbols with spaces between them are read back**, and nothing else is read. -/
theorem itemsOf_spaced {v : List Symbol}
    (hv : ∀ literal, .number literal ∈ v → IsLiteral literal) :
    noticesOf (itemsOf (spaced v)) = [] ∧ (tokensOf (itemsOf (spaced v))).map Located.val = v ∧
      OperatorsPlaced (tokensOf (itemsOf (spaced v))) := by
  obtain ⟨ts, htiled, hts, hplaced⟩ := exists_tiled_spaced hv 0
  have hitems : itemsOf (spaced v) = ts.map .token := Cursor.items_of_tiled htiled
  have htokens : tokensOf (ts.map .token) = ts := by
    simp [tokensOf, List.filterMap_map, Function.comp_def, Item.token?]
  have hnotices : noticesOf (ts.map .token) = [] := by
    simp [noticesOf, Item.notice?]
  rw [hitems, htokens]
  exact ⟨hnotices, hts, fun t ht _ _ => hplaced t ht⟩

/-! ## The forest of its own tokens -/

theorem Expr.exists_symbols_begins (e : Expr) :
    ∃ v w, e.symbols = v :: w ∧ v.begins = true := by
  induction e with
  | number s literal => exact ⟨_, _, rfl, rfl⟩
  | group s inner => exact ⟨_, _, rfl, rfl⟩
  | binary s op lhs rhs ih =>
      obtain ⟨v, w, hw, hv⟩ := ih
      rw [symbols, hw]
      exact ⟨v, _, rfl, hv⟩

namespace Forest.Canonical

theorem tail {e : Expr} {f : Forest} (h : Forest.Canonical (e :: f)) : Forest.Canonical f := by
  refine ⟨(List.forall_mem_cons.mp h.trees).2, ?_, ?_⟩
  · intro literal hliteral
    exact h.literals literal (List.mem_append_right _ hliteral)
  · intro before d d' after hf
    rw [hf] at h
    exact h.apart (e :: before) d d' after rfl

/-- The trees behind the first do not go on with it. -/
theorem parted {e : Expr} {f : Forest} (h : Forest.Canonical (e :: f)) :
    Parted e.symbols (Forest.symbols f) := by
  cases f with
  | nil => exact parted_nil _
  | cons d f =>
      obtain ⟨v, w, hw, hv⟩ := d.exists_symbols_begins
      rw [Forest.symbols, List.flatMap_cons, hw]
      intro v' hv'
      cases hv'
      refine ⟨?_, ?_⟩
      · intro o ho
        rw [ho] at hv
        cases hv
      · intro hopening hnumber
        rw [hopening] at hw
        exact h.apart [] e d f rfl hnumber (by rw [hw]; rfl)

/-- Tokens with the symbols of a canonical forest form it, but for its places. -/
theorem exists_formed {f : Forest} (hf : Forest.Canonical f) {ts : List Token}
    (hts : ts.map Located.val = Forest.symbols f) (hplaced : OperatorsPlaced ts) :
    ∃ g, Formed g ts ∧ g.map Expr.eraseSpans = f.map Expr.eraseSpans ∧
      (g.flatMap Expr.operators).map (·.span.isEmpty) =
        (f.flatMap Expr.operators).map Located.isImplicit := by
  induction f generalizing ts with
  | nil =>
      cases List.map_eq_nil_iff.mp hts
      exact ⟨[], .nil, rfl, rfl⟩
  | cons e f ih =>
      obtain ⟨us, vs, rfl, hus, hvs⟩ := List.map_eq_append_iff.mp hts
      obtain ⟨hplaced₁, hplaced₂⟩ := hplaced.append
      have he : e.Canonical := hf.trees e (List.mem_cons_self ..)
      obtain ⟨d, hd, hrenders⟩ := he.exists_built hus hplaced₁
      obtain ⟨g, hg, htrees, himplicit⟩ := ih hf.tail hvs hplaced₂
      have hparted : Parted (us.map Located.val) (vs.map Located.val) := by
        rw [hus, hvs]
        exact hf.parted
      refine ⟨d :: g, .cons hd.toSum hparted hg, ?_, ?_⟩
      · rw [List.map_cons, List.map_cons, hrenders.tree, htrees]
      · rw [List.flatMap_cons, List.flatMap_cons, List.map_append, List.map_append,
          hrenders.implicit, himplicit]

end Forest.Canonical

/-- **The round trip.** A canonical forest that is written with a space between any two
symbols is read again: nothing is passed over, the tokens are its symbols, and they are read
as the same forest, but for its places, with the same operators left out. -/
theorem forestOf_written {f : Forest} (hf : Forest.Canonical f) :
    noticesOf (itemsOf (Forest.written f)) = [] ∧
      (tokensOf (itemsOf (Forest.written f))).map Located.val = Forest.symbols f ∧
      ∃ g, forestOf (tokensOf (itemsOf (Forest.written f))) = .ok g ∧
        g.map Expr.eraseSpans = f.map Expr.eraseSpans ∧
        (g.flatMap Expr.operators).map (·.span.isEmpty) =
          (f.flatMap Expr.operators).map Located.isImplicit := by
  obtain ⟨hnotices, htokens, hplaced⟩ := itemsOf_spaced hf.literals
  obtain ⟨g, hg, htrees, himplicit⟩ := hf.exists_formed htokens hplaced
  exact ⟨hnotices, htokens, g, forestOf_eq_ok_iff.mpr hg, htrees, himplicit⟩

/-- The forest `2 + 3.5 ( 4 * 5 ) 7`: a sum with a product that is not written, and a
number. -/
theorem forestOf_written_sum_beside_number :
    let times : Located Op := ⟨.mul, .between 0 1⟩
    let group : Expr :=
      .group default (.binary default times (.number default "4") (.number default "5"))
    let product : Expr := .binary default ⟨.mul, default⟩ (.number default "3.5") group
    let sum : Expr := .binary default ⟨.add, default⟩ (.number default "2") product
    let f : Forest := [sum, .number default "7"]
    Forest.Canonical f ∧ Forest.written f = "2 + 3.5 ( 4 * 5 ) 7" ∧
      noticesOf (itemsOf (Forest.written f)) = [] ∧
      ∃ g, forestOf (tokensOf (itemsOf (Forest.written f))) = .ok g ∧
        g.map Expr.eraseSpans = f.map Expr.eraseSpans ∧
        (g.flatMap Expr.operators).map (·.span.isEmpty) = [false, true, false] := by
  intro times group product sum f
  have hf : Forest.Canonical f := by
    refine ⟨?_, ?_, ?_⟩
    · simp [f, sum, product, group, times, Expr.Canonical, Expr.Fits, Expr.precedence,
        Located.isImplicit, Op.isAdditive, Span.isEmpty, default]
    · intro literal hliteral
      have hmem : literal = "2" ∨ literal = "3.5" ∨ literal = "4" ∨ literal = "5" ∨
          literal = "7" := by
        simpa [f, sum, product, group, times, Forest.symbols, Expr.symbols, Located.isImplicit,
          Span.isEmpty, default] using hliteral
      rcases hmem with rfl | rfl | rfl | rfl | rfl
      · exact ⟨'2', [], rfl, rfl, by simp⟩
      · exact ⟨'3', ['.', '5'], rfl, rfl, List.all_eq_true.mp (by decide)⟩
      · exact ⟨'4', [], rfl, rfl, by simp⟩
      · exact ⟨'5', [], rfl, rfl, by simp⟩
      · exact ⟨'7', [], rfl, rfl, by simp⟩
    · intro before d e after h
      have hlength : [sum, .number default "7"].length = (before ++ d :: e :: after).length :=
        congrArg List.length h
      have hbefore : before = [] := by
        apply List.eq_nil_of_length_eq_zero
        simp only [List.length_append, List.length_cons, List.length_nil] at hlength
        omega
      rw [hbefore] at h
      obtain ⟨-, rfl, -⟩ : sum = d ∧ .number default "7" = e ∧ [] = after := by
        simpa [f] using h
      intro _ hopening
      cases hopening
  obtain ⟨hnotices, -, g, hg, htrees, himplicit⟩ := forestOf_written hf
  exact ⟨hf, by decide +kernel, hnotices, g, hg, htrees, himplicit.trans (by decide)⟩

end Calculator
