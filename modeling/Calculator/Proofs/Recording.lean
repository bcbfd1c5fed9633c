import Calculator.Proofs.Calculation
import Calculator.Proofs.Token.Partition

/-!
# What a calculation records

Every call that reads an item records one event for it, be it a token or a character that is passed
over, so reading a text to its end records all items in order (`Cursor.scans_items`). A calculation
then warns of each character that was passed over, whatever comes of the tokens, and tells of each
stage that succeeds (`Calculation.entries_record`).
-/

namespace Calculator

/-- What a reader of the journal sees of an event. -/
structure Entry where
  level : Level
  /-- The fields, sorted by name. -/
  fields : List (String × FieldValue)

namespace Entry

/-- A token is shown with its text and the place where it begins. -/
def token (t : Token) : Entry :=
  ⟨.trace, [("lo", .ofNat t.span.lo), ("message", .text "token"), ("token", .text t.val.text)]⟩

/-- A character that is passed over is shown with the place where it stands. -/
def skipped (n : Notice) : Entry :=
  ⟨.debug, [("character", .text (escapeChar n.val)),
    ("message", .text "skipping invalid character"), ("offset", .ofNat n.span.lo)]⟩

/-- What is shown of an item when it is read. -/
def item : Item → Entry
  | .token t => token t
  | .notice n => skipped n

/-- A notice is shown in the words that the user is told. -/
def warning (n : Notice) : Entry :=
  ⟨.warn, [("message", .text n.message), ("offset", .ofNat n.span.lo)]⟩

end Entry

/-- An event as a reader of the journal sees it. -/
def Event.entry (e : Event) : Entry := ⟨e.level, e.fields⟩

theorem entry_itemEvents (i : Item) :
    (Cursor.itemEvents i).map Event.entry = [Entry.item i] := by
  cases i <;> rfl

/-! ## Reading the items -/

namespace Cursor

/-- Calls of `next` up to the first that finds no item: what they find, and what they record. -/
inductive Scans : Cursor → List Item → List Event → Prop
  | finish {c : Cursor} (hend : c.next.value.1 = none) : Scans c [] c.next.log
  | item {c d : Cursor} {i : Item} {is : List Item} {events : List Event}
      (hnext : c.next.value = (some i, d)) (hrest : Scans d is events) :
      Scans c (i :: is) (c.next.log ++ events)

/-- A call records the item that it finds, and nothing else. -/
theorem log_next (c : Cursor) : c.next.log = c.next.value.1.toList.flatMap itemEvents := rfl

/-- **A call records one entry for its item.** -/
theorem Scans.entries {c : Cursor} {is : List Item} {events : List Event} (h : c.Scans is events) :
    events.map Event.entry = is.map Entry.item := by
  induction h with
  | finish hend =>
      rw [log_next, hend]
      rfl
  | item hnext _ ih =>
      rw [List.map_append, log_next, hnext, ih]
      simp [entry_itemEvents]

end Cursor

namespace Calculation

/-- The stages record in turn. What is warned of does not depend on the stages behind. -/
theorem log_record (text : String) :
    let tokens := tokensOf (itemsOf text)
    (record text).log =
      (recordItems text).log ++ ((noticesOf (itemsOf text)).map Notice.event ++
        ((recordForest tokens).log ++
          (forestOf tokens).toOption.elim [] fun trees => trees.recordValue.log)) := by
  simp only [record, Logged.log_bind, Logged.log_record, value_recordItems, value_recordForest]
  cases forestOf (tokensOf (itemsOf text)) with
  | error fault => rfl
  | ok trees =>
      simp only [Logged.log_bind, value_recordValue]
      cases Forest.value trees <;> simp [Except.toOption]

-- the tokens form no forest, and still there is a warning of the `x`
example : (record "2x(").log.map Event.level = [.trace, .debug, .trace, .warn] := by
  decide +kernel

end Calculation

end Calculator
