import Calculator.Proofs.Token.Tiling

/-!
# Reading character by character

A machine keeps its place in a text as a number of 32 bits, goes on by one character at a time, and
cuts the digits of a number out of the text. It is trapped if a place does not fit, or if there is
nothing to cut. Wherever calls have brought a cursor, it stands in the text (`Cursor.StandsIn`); so
in a text whose length fits, no call is trapped, and each finds what the cursor finds
(`Cursor.calls_untrapped`).
-/

namespace Calculator

/-- Places in a text are below this. -/
def placeBound : Nat := Nat.pow 2 32

/-- Why a machine stops. -/
inductive Trap
  /-- A place in the text does not fit. -/
  | overflow
  /-- A part is cut out that the text does not have. -/
  | outOfRange
deriving DecidableEq, Repr

/-- Whether byte `n` of a text is the first of a character or the end. -/
def IsBoundary (text : List Char) (n : Nat) : Prop :=
  ∃ before after, text = before ++ after ∧ byteLength before = n

/-- The place behind a character. -/
def placeBehind (n : Nat) (c : Char) : Except Trap Nat :=
  if n + c.utf8Size < placeBound then .ok (n + c.utf8Size) else .error .overflow

/-- Goes on while characters have a property. -/
def readWhile (p : Char → Bool) (n : Nat) : List Char → Except Trap (Nat × List Char)
  | [] => .ok (n, [])
  | c :: cs => if p c then do readWhile p (← placeBehind n c) cs else .ok (n, c :: cs)

/-- Cuts a part out of a text. -/
def cutOut (text : List Char) (lo hi : Nat) : Except Trap (List Char) :=
  if h : lo ≤ hi then
    match Span.slice? ⟨lo, hi, h⟩ text with
    | some part => .ok part
    | none => .error .outOfRange
  else
    .error .outOfRange

theorem placeBehind_eq {n : Nat} {c : Char} (h : n + c.utf8Size < placeBound) :
    placeBehind n c = .ok (n + c.utf8Size) := by
  rw [placeBehind, if_pos h]

/-- In a text whose length fits, going on is not trapped. -/
theorem readWhile_append {p : Char → Bool} {n : Nat} {run rest : List Char}
    (hrun : ∀ c ∈ run, p c = true) (hrest : ∀ c ∈ rest.head?, p c = false)
    (hplace : n + byteLength run < placeBound) :
    readWhile p n (run ++ rest) = .ok (n + byteLength run, rest) := by
  induction run generalizing n with
  | nil =>
      cases rest with
      | nil => rfl
      | cons c rest =>
          have hc : p c = false := hrest c rfl
          rw [List.nil_append, readWhile, hc]
          rfl
  | cons c run ih =>
      obtain ⟨hc, hrun⟩ := List.forall_mem_cons.mp hrun
      rw [byteLength_cons, ← Nat.add_assoc] at hplace ⊢
      rw [List.cons_append, readWhile, if_pos hc, placeBehind_eq (by omega)]
      exact ih hrun hplace

theorem length_le_of_readWhile {p : Char → Bool} {n : Nat} {cs : List Char} {r : Nat × List Char}
    (h : readWhile p n cs = .ok r) : r.2.length ≤ cs.length := by
  induction cs generalizing n with
  | nil =>
      cases h
      exact Nat.le_refl 0
  | cons c cs ih =>
      rw [readWhile] at h
      split at h
      · cases hplace : placeBehind n c with
        | error trap =>
            rw [hplace] at h
            cases h
        | ok k =>
            rw [hplace] at h
            exact Nat.le_succ_of_le (ih h)
      · cases h
        exact Nat.le_refl _

/-- What stands between two places of a text can be cut out. -/
theorem cutOut_eq {text before part after : List Char} {lo hi : Nat}
    (htext : text = before ++ part ++ after) (hlo : byteLength before = lo)
    (hhi : lo + byteLength part = hi) : cutOut text lo hi = .ok part := by
  have hle : lo ≤ hi := hhi ▸ Nat.le_add_right lo _
  have hslice : Span.slice? ⟨lo, hi, hle⟩ text = some part :=
    Span.slice?_eq_some_iff.mpr ⟨before, after, htext, hlo, by rw [hlo]; exact hhi⟩
  rw [cutOut, dif_pos hle, hslice]

namespace Cursor

/-- The item that begins with a character, and the cursor behind it. -/
def itemStepwise (text : List Char) (start : Nat) (c : Char) (cs : List Char) :
    Except Trap (Item × Cursor) := do
  let byte ← placeBehind start c
  match Symbol.ofChar? c with
  | some symbol => return (.token ⟨symbol, .between start byte⟩, ⟨start, byte, cs⟩)
  | none =>
      if c.isDigit then
        let (byte, rest) ← readWhile isNumberChar byte cs
        let literal ← cutOut text start byte
        return (.token ⟨.number (.ofList literal), .between start byte⟩, ⟨start, byte, rest⟩)
      else
        return (.notice ⟨c, .between start byte⟩, ⟨start, byte, cs⟩)

/-- The next item and the cursor behind it. -/
def scanStepwise (text : List Char) (c : Cursor) : Except Trap (Option Item × Cursor) := do
  let (start, cs) ← readWhile isSpace c.byte c.rest
  match cs with
  | [] => return (none, ⟨start, start, []⟩)
  | ch :: cs => do
      let (i, d) ← itemStepwise text start ch cs
      return (some i, d)

theorem length_rest_le_of_itemStepwise {text cs : List Char} {start : Nat} {c : Char}
    {r : Item × Cursor} (h : itemStepwise text start c cs = .ok r) :
    r.2.rest.length ≤ cs.length := by
  simp only [itemStepwise, bind, Except.bind] at h
  split at h
  · cases h
  · split at h
    · cases h
      exact Nat.le_refl _
    · split at h
      · split at h
        · cases h
        · rename_i hnumber
          split at h
          · cases h
          · cases h
            exact length_le_of_readWhile hnumber
      · cases h
        exact Nat.le_refl _

/-- Every item leaves fewer characters. -/
theorem length_rest_lt_of_scanStepwise {text : List Char} {c d : Cursor} {i : Item}
    (h : c.scanStepwise text = .ok (some i, d)) : d.rest.length < c.rest.length := by
  simp only [scanStepwise, bind, Except.bind] at h
  split at h
  · cases h
  · rename_i hgap
    have hlength := length_le_of_readWhile hgap
    split at h
    · cases h
    · rename_i hcs
      rw [hcs, List.length_cons] at hlength
      split at h
      · cases h
      · rename_i hitem
        cases h
        exact Nat.lt_of_le_of_lt (length_rest_le_of_itemStepwise hitem) hlength

/-- All items that are left, and the cursor behind them. -/
def allStepwise (text : List Char) (c : Cursor) : Except Trap (List Item × Cursor) :=
  match _h : c.scanStepwise text with
  | .error trap => .error trap
  | .ok (none, d) => .ok ([], d)
  | .ok (some i, d) => do
      let (is, e) ← d.allStepwise text
      return (i :: is, e)
termination_by c.rest.length
decreasing_by exact length_rest_lt_of_scanStepwise _h

/-- What can be asked of a cursor. -/
inductive Call
  /-- The next item. -/
  | read
  /-- The next item, with a record of it. -/
  | next
  /-- All items that are left, with a record of each. -/
  | all
deriving DecidableEq, Repr

/-- The end of the text that a cursor stands in. -/
def atEnd (c : Cursor) : Cursor :=
  ⟨c.byte + byteLength c.rest, c.byte + byteLength c.rest, []⟩

/-- The items that a call finds, and the cursor behind it. -/
def call (c : Cursor) : Call → List Item × Cursor
  | .read => (c.read.value.1.toList, c.read.value.2)
  | .next => (c.next.value.1.toList, c.next.value.2)
  | .all => (c.recordAll.value, c.atEnd)

/-- A call, character by character. -/
def callStepwise (text : List Char) (c : Cursor) : Call → Except Trap (List Item × Cursor)
  | .read | .next => do
      let (found, d) ← c.scanStepwise text
      return (found.toList, d)
  | .all => c.allStepwise text

/-- The cursor behind some calls. -/
def after (c : Cursor) (calls : List Call) : Cursor := calls.foldl (fun d call => (d.call call).2) c

/-- Whether a cursor stands in a text. -/
structure StandsIn (c : Cursor) (text : List Char) : Prop where
  /-- The latest item does not begin behind the place that has been reached. -/
  start_le : c.start ≤ c.byte
  /-- It begins between characters. -/
  isBoundary_start : IsBoundary text c.start
  /-- What has not been read is the text from that place on. -/
  unread : ∃ before, text = before ++ c.rest ∧ byteLength before = c.byte

/-! ## What a call comes to -/

/-- A scan finds an item behind white space, or it comes to the end. -/
theorem scan_cases (c : Cursor) :
    Blank c.rest ∧ c.scan = (none, c.atEnd) ∨
      ∃ (gap part rest : List Char) (i : Item), c.rest = gap ++ part ++ rest ∧ Blank gap ∧
        i.Spells part rest ∧ i.span.lo = c.byte + byteLength gap ∧
        i.span.hi = i.span.lo + byteLength part ∧
        c.scan = (some i, ⟨i.span.lo, i.span.hi, rest⟩) := by
  obtain ⟨start, n, cs⟩ := c
  rcases blank_or_exists_spells n cs with hblank | ⟨gap, part, rest, i, rfl, hgap, hi, hlo, hhi⟩
  · exact .inl ⟨hblank, scan_of_blank hblank⟩
  · exact .inr ⟨gap, part, rest, i, rfl, hgap, hi, hlo, hhi, scan_of_spells hgap hi hlo hhi⟩

/-- A call that finds nothing has come to the end; a call for all items always has. -/
theorem call_eq_atEnd {c : Cursor} {call : Call} (h : call = .all ∨ (c.call call).1 = []) :
    (c.call call).2 = c.atEnd := by
  rcases h with rfl | h
  · rfl
  · rcases c.scan_cases with ⟨-, hscan⟩ | ⟨_, _, _, i, -, -, -, -, -, hscan⟩
    · cases call with
      | read => exact congrArg Prod.snd hscan
      | next => exact congrArg Prod.snd hscan
      | all => rfl
    · cases call with
      | read =>
          have h : c.scan.1.toList = [] := h
          rw [hscan] at h
          cases h
      | next =>
          have h : c.scan.1.toList = [] := h
          rw [hscan] at h
          cases h
      | all => rfl

/-- At the end there is nothing to be found. -/
theorem call_atEnd (c : Cursor) (call : Call) : c.atEnd.call call = ([], c.atEnd) := by
  have hscan : c.atEnd.scan = (none, c.atEnd) := scan_of_blank (List.forall_mem_nil _)
  cases call with
  | read => exact congrArg (fun r : Option Item × Cursor => (r.1.toList, r.2)) hscan
  | next => exact congrArg (fun r : Option Item × Cursor => (r.1.toList, r.2)) hscan
  | all =>
      have hitems : c.atEnd.recordAll.value = [] := by
        rw [value_recordAll, items_of_scan_none hscan]
      exact congrArg (·, c.atEnd) hitems

theorem after_atEnd (c : Cursor) (calls : List Call) : c.atEnd.after calls = c.atEnd := by
  induction calls with
  | nil => rfl
  | cons call calls ih =>
      rw [after, List.foldl_cons, call_atEnd]
      exact ih

/-- **A call that finds an item goes on**, and not only over white space. -/
theorem byte_lt_of_call {c : Cursor} {call : Call} (h : (c.call call).1 ≠ []) :
    c.byte < (c.call call).2.byte := by
  rcases c.scan_cases with ⟨-, hscan⟩ | ⟨gap, part, rest, i, hrest, -, hi, hlo, hhi, hscan⟩
  · cases call with
    | read => exact absurd (congrArg (·.1.toList) hscan) h
    | next => exact absurd (congrArg (·.1.toList) hscan) h
    | all => exact absurd (c.value_recordAll.trans (items_of_scan_none hscan)) h
  · have hpos : 0 < byteLength part := hi.byteLength_pos
    have hbyte : c.byte < c.scan.2.byte := by
      rw [hscan]
      show c.byte < i.span.hi
      omega
    cases call with
    | read => exact hbyte
    | next => exact hbyte
    | all =>
        show c.byte < c.byte + byteLength c.rest
        rw [hrest]
        simp only [byteLength_append]
        omega

/-! ## Standing in a text -/

namespace StandsIn

variable {text : List Char} {c : Cursor}

theorem length_eq (h : c.StandsIn text) : c.byte + byteLength c.rest = byteLength text := by
  obtain ⟨before, rfl, hbefore⟩ := h.unread
  rw [byteLength_append, hbefore]

theorem isBoundary_byte (h : c.StandsIn text) : IsBoundary text c.byte := by
  obtain ⟨before, htext, hbefore⟩ := h.unread
  exact ⟨before, c.rest, htext, hbefore⟩

theorem ofText (text : List Char) : (Cursor.ofText text).StandsIn text where
  start_le := Nat.le_refl 0
  isBoundary_start := ⟨[], text, rfl, rfl⟩
  unread := ⟨[], rfl, rfl⟩

theorem atEnd (h : c.StandsIn text) : c.atEnd.StandsIn text where
  start_le := Nat.le_refl _
  isBoundary_start := ⟨text, [], (List.append_nil text).symm, h.length_eq.symm⟩
  unread := ⟨text, (List.append_nil text).symm, h.length_eq.symm⟩

theorem scan (h : c.StandsIn text) : c.scan.2.StandsIn text := by
  rcases c.scan_cases with ⟨-, hscan⟩ | ⟨gap, part, rest, i, hrest, -, -, hlo, hhi, hscan⟩
  · rw [hscan]
    exact h.atEnd
  · obtain ⟨before, htext, hbefore⟩ := h.unread
    rw [hrest] at htext
    rw [hscan]
    refine ⟨?_, ⟨before ++ gap, part ++ rest, ?_, ?_⟩, before ++ (gap ++ part), ?_, ?_⟩
    · show i.span.lo ≤ i.span.hi
      omega
    · rw [htext]
      simp only [List.append_assoc]
    · rw [byteLength_append, hbefore, hlo]
    · rw [htext, List.append_assoc before]
    · show _ = i.span.hi
      simp only [byteLength_append]
      omega

/-- No call takes a cursor out of the text. -/
theorem call (h : c.StandsIn text) (call : Call) : (c.call call).2.StandsIn text := by
  cases call with
  | read => exact h.scan
  | next => exact h.scan
  | all => exact h.atEnd

theorem after (h : c.StandsIn text) (calls : List Call) : (c.after calls).StandsIn text := by
  induction calls generalizing c with
  | nil => exact h
  | cons call calls ih => exact ih (h.call call)

end StandsIn

/-! ## No call is trapped -/

/-- An item is read where it stands. -/
theorem itemStepwise_eq {text before part rest : List Char} {i : Item} (hi : i.Spells part rest)
    (htext : text = before ++ part ++ rest) (hlo : byteLength before = i.span.lo)
    (hhi : i.span.lo + byteLength part = i.span.hi) (hlength : byteLength text < placeBound) :
    ∃ c cs, part = c :: cs ∧ itemStepwise text i.span.lo c (cs ++ rest) =
      .ok (i, ⟨i.span.lo, i.span.hi, rest⟩) := by
  have hplace : i.span.hi < placeBound := by
    rw [htext, byteLength_append, byteLength_append] at hlength
    omega
  have hspan : Span.between i.span.lo i.span.hi = i.span := Span.between_of_le i.span.lo_le_hi
  have hone (c : Char) (hpart : part = [c]) : placeBehind i.span.lo c = .ok i.span.hi := by
    subst hpart
    rw [← hhi] at hplace ⊢
    exact placeBehind_eq hplace
  cases hi with
  | @symbol c v s _ hsymbol =>
      simp only [Item.span] at hone hspan ⊢
      have hbehind := hone c rfl
      refine ⟨c, [], rfl, ?_⟩
      simp only [itemStepwise, hbehind, hsymbol, hspan, bind, Except.bind, pure, Except.pure,
        List.nil_append]
  | @number literal s _ hliteral hrest =>
      simp only [Item.span] at hlo hhi hplace hspan ⊢
      have hcut : cutOut text s.lo s.hi = .ok literal.toList := cutOut_eq htext hlo hhi
      obtain ⟨c, run, hcs, hdigit, hrun⟩ := hliteral
      rw [hcs, byteLength_cons, ← Nat.add_assoc] at hhi
      have hbehind : placeBehind s.lo c = .ok (s.lo + c.utf8Size) := placeBehind_eq (by omega)
      have hread : readWhile isNumberChar (s.lo + c.utf8Size) (run ++ rest) = .ok (s.hi, rest) := by
        rw [readWhile_append hrun hrest (by omega), hhi]
      refine ⟨c, run, hcs, ?_⟩
      simp only [itemStepwise, hbehind, ofChar?_of_isDigit hdigit, hdigit, hread, hcut, hspan, bind,
        Except.bind, pure, Except.pure, if_true, String.ofList_toList]
  | @notice c s _ _ hsymbol hdigit =>
      simp only [Item.span] at hone hspan ⊢
      have hbehind := hone c rfl
      refine ⟨c, [], rfl, ?_⟩
      simp only [itemStepwise, hbehind, hsymbol, hdigit, hspan, bind, Except.bind, pure,
        Except.pure, Bool.false_eq_true, if_false, List.nil_append]

theorem scanStepwise_eq {text : List Char} {c : Cursor} (h : c.StandsIn text)
    (hlength : byteLength text < placeBound) : c.scanStepwise text = .ok c.scan := by
  have htotal : c.byte + byteLength c.rest = byteLength text := h.length_eq
  rcases c.scan_cases with ⟨hblank, hscan⟩ | ⟨gap, part, rest, i, hrest, hgap, hi, hlo, hhi, hscan⟩
  · have hread : readWhile isSpace c.byte (c.rest ++ []) = .ok (c.byte + byteLength c.rest, []) :=
      readWhile_append hblank (fun _ hc => nomatch hc) (by omega)
    rw [List.append_nil] at hread
    simp only [scanStepwise, hread, hscan, atEnd, bind, Except.bind, pure, Except.pure]
  · obtain ⟨before, htext, hbefore⟩ := h.unread
    rw [hrest, ← List.append_assoc, ← List.append_assoc] at htext
    obtain ⟨ch, cs, rfl, hitem⟩ := itemStepwise_eq hi htext
      (by rw [byteLength_append, hbefore, hlo]) hhi.symm hlength
    have hhead : ∀ d ∈ (ch :: cs ++ rest).head?, isSpace d = false := by
      obtain ⟨_, _, hcons, hspace⟩ := hi.exists_head
      cases hcons
      intro d hd
      cases hd
      exact hspace
    have hread : readWhile isSpace c.byte c.rest = .ok (i.span.lo, ch :: (cs ++ rest)) := by
      rw [hrest] at htotal ⊢
      simp only [byteLength_append] at htotal
      rw [List.append_assoc, readWhile_append hgap hhead (by omega), hlo]
      rfl
    simp only [scanStepwise, hread, hitem, hscan, bind, Except.bind, pure, Except.pure]

theorem allStepwise_of_none {text : List Char} {c d : Cursor}
    (h : c.scanStepwise text = .ok (none, d)) : c.allStepwise text = .ok ([], d) := by
  rw [allStepwise]
  split
  · rename_i htrap
    rw [h] at htrap
    cases htrap
  · rename_i hnone
    rw [h] at hnone
    cases hnone
    rfl
  · rename_i hsome
    rw [h] at hsome
    cases hsome

theorem allStepwise_of_some {text : List Char} {c d e : Cursor} {i : Item} {is : List Item}
    (h : c.scanStepwise text = .ok (some i, d)) (hrest : d.allStepwise text = .ok (is, e)) :
    c.allStepwise text = .ok (i :: is, e) := by
  rw [allStepwise]
  split
  · rename_i htrap
    rw [h] at htrap
    cases htrap
  · rename_i hnone
    rw [h] at hnone
    cases hnone
  · rename_i hsome
    rw [h] at hsome
    cases hsome
    rw [hrest]
    rfl

/-- Scanning up to where there is no item finds all of them and comes to the end. -/
theorem allStepwise_eq {text : List Char} {c : Cursor} (h : c.StandsIn text)
    (hlength : byteLength text < placeBound) : c.allStepwise text = .ok (c.items, c.atEnd) := by
  have hstep : c.scanStepwise text = .ok c.scan := scanStepwise_eq h hlength
  fun_induction items c with
  | case1 c d hscan =>
      have hend : d = c.atEnd := by
        rcases c.scan_cases with ⟨-, hnone⟩ | ⟨_, _, _, _, -, -, -, -, -, hsome⟩
        · rw [hscan] at hnone
          exact congrArg Prod.snd hnone
        · rw [hscan] at hsome
          cases hsome
      rw [hscan, hend] at hstep
      exact allStepwise_of_none hstep
  | case2 c i d hscan ih =>
      have hd : d.StandsIn text := by
        have hnext := h.scan
        rwa [hscan] at hnext
      have hend : d.atEnd = c.atEnd := by
        rw [atEnd, atEnd, hd.length_eq, h.length_eq]
      rw [hscan] at hstep
      rw [← hend]
      exact allStepwise_of_some hstep (ih hd (scanStepwise_eq hd hlength))

/-- In a text whose length fits, a call finds what the cursor finds. -/
theorem callStepwise_eq {text : List Char} {c : Cursor} (h : c.StandsIn text)
    (hlength : byteLength text < placeBound) (call : Call) :
    c.callStepwise text call = .ok (c.call call) := by
  have hscan : c.scanStepwise text = .ok c.scan := scanStepwise_eq h hlength
  cases call with
  | read =>
      rw [callStepwise, hscan]
      rfl
  | next =>
      rw [callStepwise, hscan]
      rfl
  | all =>
      rw [call, value_recordAll]
      exact allStepwise_eq h hlength

/-- **No call is trapped** in a text whose length fits, whatever has been called before. The latest
item begins no later than the place that has been reached, both are between characters, and that
place and what has not been read make up the whole text. A call that finds an item goes on. Behind a
call that finds none, or that asks for all, nothing more is found. -/
theorem calls_untrapped {text : String} (hlength : byteLength text.toList < placeBound)
    (calls : List Call) :
    let c := (Cursor.ofText text.toList).after calls
    (c.start ≤ c.byte ∧ c.byte ≤ byteLength text.toList ∧
      c.byte + byteLength c.rest = byteLength text.toList ∧
      IsBoundary text.toList c.start ∧ IsBoundary text.toList c.byte) ∧
    ∀ call,
      c.callStepwise text.toList call = .ok (c.call call) ∧
      ((c.call call).1 ≠ [] → c.byte < (c.call call).2.byte) ∧
      (call = .all ∨ (c.call call).1 = [] →
        ∀ later last, (((c.call call).2.after later).call last).1 = []) := by
  intro c
  have h : c.StandsIn text.toList := (StandsIn.ofText text.toList).after calls
  have htotal := h.length_eq
  refine ⟨⟨h.start_le, by omega, htotal, h.isBoundary_start, h.isBoundary_byte⟩, fun call => ?_⟩
  refine ⟨callStepwise_eq h hlength call, byte_lt_of_call, fun hcall later last => ?_⟩
  rw [call_eq_atEnd hcall, after_atEnd, call_atEnd]

/-- Behind a number and a character of two bytes all else is read, and then there is nothing. -/
theorem calls_untrapped_number_and_notice :
    let c := (Cursor.ofText "2.5 é(3".toList).after [.next, .read]
    byteLength "2.5 é(3".toList < placeBound ∧ c = ⟨4, 6, ['(', '3']⟩ ∧
      c.callStepwise "2.5 é(3".toList .all = .ok (c.call .all) ∧ c.byte < (c.call .all).2.byte ∧
      ((c.call .all).2.call .next).1 = [] := by
  intro c
  have hlength : byteLength "2.5 é(3".toList < placeBound := by decide
  have hc : c = ⟨4, 6, ['(', '3']⟩ := by decide +kernel
  obtain ⟨-, hcall⟩ := calls_untrapped hlength [.next, .read]
  obtain ⟨hall, hgoes, hnone⟩ := hcall .all
  refine ⟨hlength, hc, hall, hgoes ?_, hnone (.inl rfl) [] .next⟩
  show (c.call .all).1 ≠ []
  rw [hc]
  decide +kernel

end Cursor

end Calculator
