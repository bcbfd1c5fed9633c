/-!
# The journal

Every stage of a calculation records what it does. An `Event` says what happened; its
level and its named fields are what a reader of the journal sees. `Logged` is a value
together with the events recorded on the way to it, oldest first.
-/

namespace Calculator

/-- How much an event matters. -/
inductive Level
  | trace
  | debug
  | warn
deriving DecidableEq, Repr

/-- What the journal can record. -/
inductive Event
  /-- A token was read. -/
  | token (text : String) (lo : Nat)
  /-- A character was passed over; it is recorded in its escaped form. -/
  | skipped (character : String) (offset : Nat)
  /-- A calculation gave notice of a character that was passed over. -/
  | noticed (message : String) (offset : Nat)
  /-- All tokens were read into trees. -/
  | parsedForest (trees : Nat)
  /-- The trees of a forest were evaluated. -/
  | evaluatedForest (trees : Nat) (value : Float)
  /-- A screen was replaced by its value. -/
  | evaluatedScreen (input result : String)
  /-- A screen was left as it was, because it has no value. -/
  | keptScreen (input message : String)
  /-- A line of a worksheet has a value. -/
  | evaluatedLine (line : Nat) (result : String)
  /-- A line of a worksheet has no token. -/
  | emptyLine (line : Nat)
  /-- A line of a worksheet failed. -/
  | failedLine (line : Nat) (message : String)

/-- The value of a field. -/
inductive FieldValue
  | text (s : String)
  | number (x : Float)

namespace FieldValue

/-- A count or a position as a field. -/
def ofNat (n : Nat) : FieldValue := text (toString n)

end FieldValue

namespace Event

/-- How much an event matters. -/
def level : Event → Level
  | token .. => .trace
  | noticed .. => .warn
  | _ => .debug

/-- The text of an event. -/
def message : Event → String
  | token .. => "token"
  | skipped .. => "skipping invalid character"
  | noticed message _ => message
  | parsedForest _ => "parsed forest"
  | evaluatedForest .. => "evaluated forest"
  | evaluatedScreen .. => "evaluated buffer"
  | keptScreen .. => "buffer left unevaluated"
  | evaluatedLine .. => "evaluated line"
  | emptyLine _ => "line holds no expression"
  | failedLine .. => "line failed"

/-- The particulars of an event, without its text. -/
def particulars : Event → List (String × FieldValue)
  | token text lo => [("lo", .ofNat lo), ("token", .text text)]
  | skipped character offset => [("character", .text character), ("offset", .ofNat offset)]
  | noticed _ offset => [("offset", .ofNat offset)]
  | parsedForest trees => [("nodes", .ofNat trees)]
  | evaluatedForest trees value => [("nodes", .ofNat trees), ("value", .number value)]
  | evaluatedScreen input result => [("input", .text input), ("result", .text result)]
  | keptScreen input message => [("err", .text message), ("input", .text input)]
  | evaluatedLine line result => [("line", .ofNat line), ("result", .text result)]
  | emptyLine line => [("line", .ofNat line)]
  | failedLine line message => [("err", .text message), ("line", .ofNat line)]

/-- The fields of an event, its text included, sorted by name. -/
def fields (e : Event) : List (String × FieldValue) :=
  let (before, after) := e.particulars.span fun (name, _) => name < "message"
  before ++ ("message", .text e.message) :: after

end Event

/-- A value with the events recorded on the way to it, oldest first. -/
structure Logged (α : Type) where
  value : α
  log : List Event

namespace Logged

instance : Monad Logged where
  pure a := ⟨a, []⟩
  bind x f := ⟨(f x.value).value, x.log ++ (f x.value).log⟩

/-- Records events, in order. -/
def record (events : List Event) : Logged Unit := ⟨(), events⟩

@[simp] theorem value_pure {α : Type} (a : α) : (pure a : Logged α).value = a := rfl

@[simp] theorem log_pure {α : Type} (a : α) : (pure a : Logged α).log = [] := rfl

@[simp] theorem value_bind {α β : Type} (x : Logged α) (f : α → Logged β) :
    (x >>= f).value = (f x.value).value := rfl

@[simp] theorem log_bind {α β : Type} (x : Logged α) (f : α → Logged β) :
    (x >>= f).log = x.log ++ (f x.value).log := rfl

@[simp] theorem log_record (events : List Event) : (record events).log = events := rfl

instance : LawfulMonad Logged :=
  LawfulMonad.mk' Logged
    (fun x => by
      show (⟨x.value, x.log ++ []⟩ : Logged _) = x
      rw [List.append_nil])
    (fun _ _ => rfl)
    (fun x f g => by
      show (⟨_, (x.log ++ (f x.value).log) ++ _⟩ : Logged _) = ⟨_, x.log ++ (_ ++ _)⟩
      rw [List.append_assoc]
      rfl)

@[simp] theorem value_map {α β : Type} (f : α → β) (x : Logged α) : (f <$> x).value = f x.value :=
  rfl

@[simp] theorem log_map {α β : Type} (f : α → β) (x : Logged α) : (f <$> x).log = x.log :=
  List.append_nil x.log

@[simp] theorem value_foldlM {α β : Type} (f : β → α → Logged β) (b : β) (as : List α) :
    (as.foldlM f b).value = as.foldl (fun b a => (f b a).value) b := by
  induction as generalizing b with
  | nil => rfl
  | cons a as ih => rw [List.foldlM_cons, value_bind, ih, List.foldl_cons]

/-- What is recorded of an element may not depend on those in front of it. -/
theorem log_foldlM {α β : Type} {f : β → α → Logged β} {events : α → List Event}
    (h : ∀ b a, (f b a).log = events a) (b : β) (as : List α) :
    (as.foldlM f b).log = as.flatMap events := by
  induction as generalizing b with
  | nil => rfl
  | cons a as ih => rw [List.foldlM_cons, log_bind, ih, h, List.flatMap_cons]

end Logged

end Calculator
