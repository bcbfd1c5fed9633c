import Calculator.Text.Bytes

/-!
# Spans

A span is a part of a text, given by the byte positions of its two ends. The ends are
always in order: the type carries the proof.
-/

namespace Calculator

/-- The bytes from `lo` up to but not including `hi`. -/
@[ext]
structure Span where
  lo : Nat
  hi : Nat
  lo_le_hi : lo ≤ hi
deriving DecidableEq, Repr

namespace Span

instance : Inhabited Span := ⟨⟨0, 0, Nat.le_refl 0⟩⟩

/-- The span between two positions, given in either order. -/
def between (a b : Nat) : Span := ⟨min a b, max a b, by omega⟩

/-- The span at `p` that covers nothing. -/
def emptyAt (p : Nat) : Span := ⟨p, p, Nat.le_refl p⟩

/-- The smallest span that covers two spans. -/
def join (s t : Span) : Span :=
  ⟨min s.lo t.lo, max s.hi t.hi, by have := s.lo_le_hi; have := t.lo_le_hi; omega⟩

/-- Whether a span covers nothing. -/
def isEmpty (s : Span) : Bool := s.lo == s.hi

/-- A span moved right by `n` bytes. -/
def shift (s : Span) (n : Nat) : Span :=
  ⟨s.lo + n, s.hi + n, Nat.add_le_add_right s.lo_le_hi n⟩

/-- The characters of a text that a span covers, if it lies in the text and both its ends
lie between characters. -/
def slice? (s : Span) (text : List Char) : Option (List Char) := do
  let (_, rest) ← splitBytes? s.lo text
  let (covered, _) ← splitBytes? (s.hi - s.lo) rest
  return covered

@[simp] theorem between_lo (a b : Nat) : (between a b).lo = min a b := rfl

@[simp] theorem between_hi (a b : Nat) : (between a b).hi = max a b := rfl

/-- Two positions in order are the ends of the span between them. -/
theorem between_of_le {a b : Nat} (h : a ≤ b) : between a b = ⟨a, b, h⟩ :=
  Span.ext (Nat.min_eq_left h) (Nat.max_eq_right h)

@[simp] theorem emptyAt_lo (p : Nat) : (emptyAt p).lo = p := rfl

@[simp] theorem emptyAt_hi (p : Nat) : (emptyAt p).hi = p := rfl

@[simp] theorem isEmpty_emptyAt (p : Nat) : (emptyAt p).isEmpty = true := by
  simp [isEmpty]

@[simp] theorem join_lo (s t : Span) : (s.join t).lo = min s.lo t.lo := rfl

@[simp] theorem join_hi (s t : Span) : (s.join t).hi = max s.hi t.hi := rfl

@[simp] theorem shift_lo (s : Span) (n : Nat) : (s.shift n).lo = s.lo + n := rfl

@[simp] theorem shift_hi (s : Span) (n : Nat) : (s.shift n).hi = s.hi + n := rfl

/-- A span covers exactly the part of a text that stands between its two ends. -/
theorem slice?_eq_some_iff {s : Span} {text part : List Char} :
    s.slice? text = some part ↔
      ∃ before after, text = before ++ part ++ after ∧
        byteLength before = s.lo ∧ byteLength before + byteLength part = s.hi := by
  have hs := s.lo_le_hi
  constructor
  · intro h
    simp only [slice?, Option.bind_eq_bind, Option.bind_eq_some_iff, Option.pure_def,
      Option.some.injEq] at h
    obtain ⟨⟨before, rest⟩, hrest, ⟨covered, after⟩, hcovered, rfl⟩ := h
    obtain ⟨rfl, hlo⟩ := splitBytes?_eq_some_iff.1 hrest
    obtain ⟨rfl, hhi⟩ := splitBytes?_eq_some_iff.1 hcovered
    have hlen : byteLength covered = s.hi - s.lo := hhi
    refine ⟨before, after, by simp, hlo, ?_⟩
    show byteLength before + byteLength covered = s.hi
    omega
  · rintro ⟨before, after, rfl, hlo, hhi⟩
    have hfirst : splitBytes? s.lo (before ++ part ++ after) = some (before, part ++ after) := by
      rw [← hlo, List.append_assoc]
      exact splitBytes?_append before (part ++ after)
    have hsecond : splitBytes? (s.hi - s.lo) (part ++ after) = some (part, after) := by
      rw [show s.hi - s.lo = byteLength part by omega]
      exact splitBytes?_append part after
    simp only [slice?, hfirst, hsecond, Option.bind_eq_bind, Option.bind_some, Option.pure_def]

end Span

/-- Something with the place it has in the text. -/
@[ext]
structure Located (α : Type) where
  val : α
  span : Span
deriving DecidableEq, Repr

end Calculator
