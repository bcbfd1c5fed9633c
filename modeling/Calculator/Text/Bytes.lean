/-!
# Byte positions in a text

A text is a list of characters, and a place in it is a number of bytes of its UTF-8
form. `byteLength` measures a text, and `splitBytes?` cuts one at a byte position:
`splitBytes?_eq_some_iff` says that the cut exists exactly at character boundaries.
-/

namespace Calculator

/-- Number of bytes that a text takes in UTF-8. -/
def byteLength : List Char → Nat
  | [] => 0
  | c :: cs => c.utf8Size + byteLength cs

@[simp] theorem byteLength_nil : byteLength [] = 0 := rfl

@[simp] theorem byteLength_cons (c : Char) (cs : List Char) :
    byteLength (c :: cs) = c.utf8Size + byteLength cs := rfl

@[simp] theorem byteLength_append (a b : List Char) :
    byteLength (a ++ b) = byteLength a + byteLength b := by
  induction a with
  | nil => simp
  | cons c cs ih => simp [ih, Nat.add_assoc]

/-- Only the empty text takes no bytes. -/
theorem byteLength_eq_zero_iff {cs : List Char} : byteLength cs = 0 ↔ cs = [] := by
  cases cs with
  | nil => simp
  | cons c cs =>
      have := c.utf8Size_pos
      simp
      omega

/-- Cuts a text after its first `n` bytes, if a character ends there. -/
def splitBytes? : Nat → List Char → Option (List Char × List Char)
  | 0, cs => some ([], cs)
  | _ + 1, [] => none
  | n + 1, c :: cs =>
      if c.utf8Size ≤ n + 1 then
        (splitBytes? (n + 1 - c.utf8Size) cs).map fun (before, after) => (c :: before, after)
      else
        none

/-- Cutting behind a part of a text gives that part and the rest. -/
theorem splitBytes?_append (a b : List Char) :
    splitBytes? (byteLength a) (a ++ b) = some (a, b) := by
  induction a with
  | nil => cases b <;> rfl
  | cons c cs ih =>
      have hc := c.utf8Size_pos
      obtain ⟨n, hn⟩ : ∃ n, c.utf8Size + byteLength cs = n + 1 :=
        ⟨_, (Nat.sub_add_cancel (by omega)).symm⟩
      have hsub : n + 1 - c.utf8Size = byteLength cs := by omega
      have hle : c.utf8Size ≤ n + 1 := by omega
      simp [hn, splitBytes?, hle, hsub, ih]

/-- A text can be cut exactly where one of its initial parts ends. -/
theorem splitBytes?_eq_some_iff {n : Nat} {cs a b : List Char} :
    splitBytes? n cs = some (a, b) ↔ cs = a ++ b ∧ byteLength a = n := by
  constructor
  · intro h
    induction cs generalizing n a with
    | nil =>
        cases n with
        | zero => simp_all [splitBytes?]
        | succ n => simp [splitBytes?] at h
    | cons c cs ih =>
        cases n with
        | zero => simp_all [splitBytes?]
        | succ n =>
            simp only [splitBytes?] at h
            split at h
            · rename_i hle
              obtain ⟨⟨a', b'⟩, hcut, hab⟩ := Option.map_eq_some_iff.1 h
              simp only [Prod.mk.injEq] at hab
              obtain ⟨rfl, rfl⟩ := hab
              obtain ⟨rfl, hlen⟩ := ih hcut
              simp [hlen]
              omega
            · simp at h
  · rintro ⟨rfl, rfl⟩
    exact splitBytes?_append a b

end Calculator
