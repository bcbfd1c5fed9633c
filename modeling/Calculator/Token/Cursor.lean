import Calculator.Journal
import Calculator.Text.Blank
import Calculator.Text.Escape
import Calculator.Token

/-!
# Reading a text into tokens

A cursor stands in a text. Each `scan` passes over white space and takes the next item: a
symbol, a number (a digit with all the digits and points that follow it) or a character
that belongs to no token. `items` takes all that is left; it ends because every item
leaves fewer characters, `rest_length_lt_of_scan`. `recordAll` calls `next` for each of
them and keeps what that records.
-/

namespace Calculator

/-- A place in a text that is being read. -/
structure Cursor where
  /-- Where the latest item begins. -/
  start : Nat
  /-- How many bytes have been read. -/
  byte : Nat
  /-- What has not been read. -/
  rest : List Char
deriving DecidableEq, Repr

/-- Whether a number can go on with a character. How many points it has in the end is not
looked at here. -/
def isNumberChar (c : Char) : Bool := c.isDigit || c == '.'

namespace Cursor

/-- The beginning of a text. -/
def ofText (text : List Char) : Cursor := ⟨0, 0, text⟩

/-- Passes over white space. -/
def skipSpaces (c : Cursor) : Cursor where
  start := c.start
  byte := c.byte + byteLength (c.rest.takeWhile isSpace)
  rest := c.rest.dropWhile isSpace

/-- The span of the next `n` bytes. -/
def ahead (c : Cursor) (n : Nat) : Span := ⟨c.byte, c.byte + n, Nat.le_add_right _ _⟩

/-- The next item and the cursor behind it; at the end of the text, no item. -/
def scan (cursor : Cursor) : Option Item × Cursor :=
  let c := cursor.skipSpaces
  match c.rest with
  | [] => (none, ⟨c.byte, c.byte, []⟩)
  | ch :: rest =>
      match Symbol.ofChar? ch with
      | some symbol =>
          (some (.token ⟨symbol, c.ahead ch.utf8Size⟩), ⟨c.byte, c.byte + ch.utf8Size, rest⟩)
      | none =>
          if ch.isDigit then
            let literal := ch :: rest.takeWhile isNumberChar
            let length := byteLength literal
            (some (.token ⟨.number (String.ofList literal), c.ahead length⟩),
              ⟨c.byte, c.byte + length, rest.dropWhile isNumberChar⟩)
          else
            (some (.notice ⟨ch, c.ahead ch.utf8Size⟩), ⟨c.byte, c.byte + ch.utf8Size, rest⟩)

/-- Every item leaves fewer characters to be read. -/
theorem rest_length_lt_of_scan {c d : Cursor} {i : Item} (h : c.scan = (some i, d)) :
    d.rest.length < c.rest.length := by
  have hskip : c.skipSpaces.rest.length ≤ c.rest.length := (List.dropWhile_sublist _).length_le
  unfold scan at h
  simp only at h
  split at h
  · simp at h
  · rename_i ch rest hrest
    rw [hrest, List.length_cons] at hskip
    split at h
    · simp only [Prod.mk.injEq] at h
      rw [← h.2]
      exact hskip
    · split at h
      · simp only [Prod.mk.injEq] at h
        have hdrop : (rest.dropWhile isNumberChar).length ≤ rest.length :=
          (List.dropWhile_sublist _).length_le
        rw [← h.2]
        exact Nat.lt_of_le_of_lt hdrop hskip
      · simp only [Prod.mk.injEq] at h
        rw [← h.2]
        exact hskip

/-- What the journal says of a character that was passed over. -/
def skippedEvents : Item → List Event
  | .token _ => []
  | .notice n => [.skipped (escapeChar n.val) n.span.lo]

/-- What the journal says of an item that was read in passing. -/
def itemEvents : Item → List Event
  | .token t => [.token t.val.text t.span.lo]
  | .notice n => skippedEvents (.notice n)

/-- Reads the next item. Only a character that is passed over is recorded. -/
def read (c : Cursor) : Logged (Option Item × Cursor) :=
  let r := c.scan
  ⟨r, r.1.toList.flatMap skippedEvents⟩

/-- Reads the next item and records it. -/
def next (c : Cursor) : Logged (Option Item × Cursor) :=
  let r := c.scan
  ⟨r, r.1.toList.flatMap itemEvents⟩

/-- All items from here to the end of the text. -/
def items (c : Cursor) : List Item :=
  match _h : c.scan with
  | (none, _) => []
  | (some i, d) => i :: d.items
termination_by c.rest.length
decreasing_by exact rest_length_lt_of_scan _h

theorem items_of_scan_none {c d : Cursor} (h : c.scan = (none, d)) : c.items = [] := by
  rw [items]
  split
  · rfl
  · rename_i hsome
    rw [h] at hsome
    cases hsome

theorem items_of_scan_some {c d : Cursor} {i : Item} (h : c.scan = (some i, d)) :
    c.items = i :: d.items := by
  rw [items]
  split
  · rename_i hnone
    rw [h] at hnone
    cases hnone
  · rename_i hsome
    rw [h] at hsome
    cases hsome
    rfl

/-- Every item that is read leaves fewer characters. -/
theorem rest_length_lt_of_next {c d : Cursor} {i : Item} {events : List Event}
    (h : c.next = ⟨(some i, d), events⟩) : d.rest.length < c.rest.length :=
  rest_length_lt_of_scan (congrArg Logged.value h)

/-- Reads items up to the end of the text, and records each. -/
def recordAll (c : Cursor) : Logged (List Item) :=
  match _h : c.next with
  | ⟨(none, _), events⟩ => ⟨[], events⟩
  | ⟨(some i, d), events⟩ =>
      let later := d.recordAll
      ⟨i :: later.value, events ++ later.log⟩
termination_by c.rest.length
decreasing_by exact rest_length_lt_of_next _h

theorem value_recordAll (c : Cursor) : c.recordAll.value = c.items := by
  fun_induction recordAll c with
  | case1 c d events hnext =>
      have hscan : c.scan = (none, d) := congrArg Logged.value hnext
      rw [items_of_scan_none hscan]
  | case2 c i d events hnext later ih =>
      have hscan : c.scan = (some i, d) := congrArg Logged.value hnext
      rw [items_of_scan_some hscan, ← ih]

end Cursor

/-- The items of a text, each with its place. -/
def itemsOf (text : String) : List Item := (Cursor.ofText text.toList).items

/-- Reads the items of a text and records them. -/
def recordItems (text : String) : Logged (List Item) := (Cursor.ofText text.toList).recordAll

@[simp] theorem value_recordItems (text : String) : (recordItems text).value = itemsOf text :=
  (Cursor.ofText text.toList).value_recordAll

end Calculator
