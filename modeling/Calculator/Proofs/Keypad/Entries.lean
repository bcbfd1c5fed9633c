import Calculator.Proofs.Keypad.Typing
import Calculator.Proofs.Number.Shown

/-!
# What the entries of a screen are

A key types one character, or a point with a zero in front of it. Only a value can be longer, and
it is at the bottom, because it replaces all that was there (`Screen.layered_typed`). The flag is
put up by a point that comes onto the screen, and any operator takes it down: while it is up, such a
point is still there, and no operator has been pressed since (`Screen.typed_entries`).
-/

namespace Calculator

theorem Number.display_ne_empty (x : Float) : Number.display x ≠ "" := by
  intro hempty
  have hshows : Number.Shows x "" := hempty ▸ Number.shows_display x
  generalize htext : "" = text at hshows
  cases hshows with
  | negative _ hcs =>
      rw [← htext] at hcs
      cases hcs
  | zero => exact absurd htext (by decide)
  | positive _ _ hliteral =>
      obtain ⟨c, run, hcs, -⟩ := hliteral
      rw [← htext] at hcs
      cases hcs
  | word _ _ hword =>
      rw [← htext] at hword
      exact absurd hword (by decide)

theorem Key.not_mem_commands_of_operator {c : Char} (h : c ∈ operators) : c ∉ commands := by
  simp only [operators, List.mem_cons, List.not_mem_nil, or_false] at h
  rcases h with rfl | rfl | rfl | rfl <;> decide

namespace Screen

/-- Whether a key can have typed an entry. -/
def IsKeyed (entry : String) : Prop := (∃ c ∉ Key.commands, entry = c.toString) ∨ entry = "0."

/-- What entries can be: those that were typed, latest first, and under them perhaps a value. -/
inductive Layered : List String → Prop
  | empty : Layered []
  | value (x : Float) : Layered [Number.display x]
  | keyed {entry : String} {entries : List String} (hentry : IsKeyed entry)
      (hentries : Layered entries) : Layered (entry :: entries)

/-- Whether an entry came with the last of some keys and has stayed there, with no operator
pressed since. -/
structure StandsSince (keys before : List Char) (entry : String) : Prop where
  /-- The keys that have been pressed since are no operators. -/
  since : ∃ after, keys = before ++ after ∧ ∀ c ∈ after, c ∉ Key.operators
  /-- The entries behind it are no operators. -/
  entries : ∃ newer older, (typed before).entries = entry :: older ∧
    (typed keys).entries = newer ++ entry :: older ∧
    ∀ e ∈ newer, ∀ c ∈ Key.operators, e ≠ c.toString

/-! ## The entries -/

theorem IsKeyed.ne_empty {entry : String} (h : IsKeyed entry) : entry ≠ "" := by
  rcases h with ⟨c, -, rfl⟩ | rfl
  · rw [Char.toString_eq_singleton]
    exact String.singleton_ne_empty
  · decide

theorem Layered.delete {entry : String} {entries : List String} (h : Layered (entry :: entries)) :
    Layered entries := by
  cases h with
  | value x => exact .empty
  | keyed _ hentries => exact hentries

/-- A point is typed alone or behind a zero. -/
theorem Layered.dot {s : Screen} (h : Layered s.entries) : Layered s.dot.entries := by
  rw [Screen.dot]
  split
  · exact h
  · refine .keyed ?_ h
    split
    · exact .inl ⟨'.', by decide, rfl⟩
    · exact .inr rfl

/-- Every key keeps what the entries are. -/
theorem Layered.press {s : Screen} (h : Layered s.entries) (c : Char) :
    Layered (s.press (.ofChar c)).value.2.entries := by
  have hkey : Key.Labelled c (.ofChar c) := Key.labelled c
  generalize Key.ofChar c = key at hkey
  cases hkey with
  | operator hc => exact .keyed (.inl ⟨c, Key.not_mem_commands_of_operator hc, rfl⟩) h
  | dot => exact h.dot
  | delete =>
      obtain ⟨entries, flag⟩ := s
      cases entries with
      | nil => exact h
      | cons entry entries => exact h.delete
  | cancel => exact .empty
  | equals =>
      show Layered s.equals.value.2.entries
      rcases s.equals_eq_or with hsame | ⟨x, -, -, -, hvalue⟩
      · rw [hsame]
        exact h
      · rw [hvalue]
        exact .value x
  | input _ _ hc => exact .keyed (.inl ⟨c, hc, rfl⟩) h

theorem layered_typed (keys : List Char) : Layered (typed keys).entries := by
  induction keys using List.reverseRecOn with
  | nil => exact .empty
  | append_singleton keys c ih =>
      rw [typed_concat]
      exact ih.press c

/-- Only the entry at the bottom can be a value. -/
theorem Layered.getElem?_reverse {entries : List String} (h : Layered entries) {i : Nat}
    {entry : String} (hi : entries.reverse[i]? = some entry) :
    IsKeyed entry ∨ i = 0 ∧ ∃ x, entry = Number.display x := by
  induction h with
  | empty => cases hi
  | value x =>
      cases i with
      | zero =>
          cases hi
          exact .inr ⟨rfl, x, rfl⟩
      | succ i => cases hi
  | @keyed last entries hlast _ ih =>
      rw [List.reverse_cons, List.getElem?_append] at hi
      split at hi
      · exact ih hi
      · rw [List.getElem?_singleton] at hi
        split at hi
        · cases hi
          exact .inl hlast
        · cases hi

/-- No entry is empty. -/
theorem Layered.ne_empty {entries : List String} (h : Layered entries) {entry : String}
    (hentry : entry ∈ entries) : entry ≠ "" := by
  obtain ⟨i, hi⟩ := List.mem_iff_getElem?.mp (List.mem_reverse.mpr hentry)
  rcases h.getElem?_reverse hi with hkeyed | ⟨-, x, rfl⟩
  · exact hkeyed.ne_empty
  · exact Number.display_ne_empty x

theorem isEmpty_iff_text {s : Screen} (h : Layered s.entries) : s.isEmpty = true ↔ s.text = "" := by
  obtain ⟨entries, flag⟩ := s
  cases entries with
  | nil => exact ⟨fun _ => rfl, fun _ => rfl⟩
  | cons entry entries =>
      refine ⟨fun hempty => Bool.noConfusion hempty, fun htext => ?_⟩
      -- the text ends with the latest entry, and that is not empty
      have hentry : entry ≠ "" := h.ne_empty (List.mem_cons_self ..)
      rw [← String.toList_inj, toList_text_cons] at htext
      obtain ⟨-, hnil⟩ := List.append_eq_nil_iff.mp htext
      exact absurd (String.toList_inj.mp hnil) hentry

/-! ## The point that has put up the flag -/

/-- The latest entry has come with the last key. -/
theorem standsSince_self {keys : List Char} {entry : String} {older : List String}
    (h : (typed keys).entries = entry :: older) : StandsSince keys keys entry where
  since := ⟨[], (List.append_nil keys).symm, List.forall_mem_nil _⟩
  entries := ⟨[], older, h, h, List.forall_mem_nil _⟩

namespace StandsSince

variable {keys before : List Char} {entry : String} {c : Char}

theorem since_concat (h : StandsSince keys before entry) (hc : c ∉ Key.operators) :
    ∃ after, keys ++ [c] = before ++ after ∧ ∀ d ∈ after, d ∉ Key.operators := by
  obtain ⟨after, rfl, hafter⟩ := h.since
  exact ⟨after ++ [c], List.append_assoc _ _ _,
    List.forall_mem_append.mpr ⟨hafter, List.forall_mem_singleton.mpr hc⟩⟩

theorem kept (h : StandsSince keys before entry) (hc : c ∉ Key.operators)
    (hentries : (typed (keys ++ [c])).entries = (typed keys).entries) :
    StandsSince (keys ++ [c]) before entry where
  since := h.since_concat hc
  entries := by
    rw [hentries]
    exact h.entries

theorem typed (h : StandsSince keys before entry) (hc : c ∉ Key.operators)
    (hentries : (typed (keys ++ [c])).entries = c.toString :: (Screen.typed keys).entries) :
    StandsSince (keys ++ [c]) before entry where
  since := h.since_concat hc
  entries := by
    obtain ⟨newer, older, hbefore, hkeys, hnewer⟩ := h.entries
    refine ⟨c.toString :: newer, older, hbefore, by rw [hentries, hkeys]; rfl, ?_⟩
    refine List.forall_mem_cons.mpr ⟨fun d hd hsame => ?_, hnewer⟩
    rw [Char.toString_eq_singleton, Char.toString_eq_singleton, String.singleton_inj] at hsame
    exact hc (hsame ▸ hd)

/-- Another entry can be taken back. -/
theorem deleted {last : String} (h : StandsSince keys before entry) (hc : c ∉ Key.operators)
    (hentries : (Screen.typed keys).entries = last :: (Screen.typed (keys ++ [c])).entries)
    (hlast : last ≠ entry) : StandsSince (keys ++ [c]) before entry where
  since := h.since_concat hc
  entries := by
    obtain ⟨newer, older, hbefore, hkeys, hnewer⟩ := h.entries
    rw [hentries] at hkeys
    cases newer with
    | nil => exact absurd (List.cons.inj hkeys).1 hlast
    | cons e newer =>
        exact ⟨newer, older, hbefore, (List.cons.inj hkeys).2, (List.forall_mem_cons.mp hnewer).2⟩

end StandsSince

/-- **While the flag is up, a point stands on the screen** that has come since the last operator. -/
theorem exists_standsSince_of_hasDot {keys : List Char} (h : (typed keys).hasDot = true) :
    ∃ before entry, containsDot entry = true ∧ StandsSince keys before entry := by
  induction keys using List.reverseRecOn with
  | nil => cases h
  | append_singleton keys c ih =>
      have htyped := typed_concat keys c
      have hkey : Key.Labelled c (.ofChar c) := Key.labelled c
      -- a key that changes nothing leaves the point where it is
      have hkept (hc : c ∉ Key.operators) (hsame : typed (keys ++ [c]) = typed keys) :
          ∃ before entry, containsDot entry = true ∧ StandsSince (keys ++ [c]) before entry := by
        rw [hsame] at h
        obtain ⟨before, entry, hpoint, hstands⟩ := ih h
        exact ⟨before, entry, hpoint, hstands.kept hc (congrArg Screen.entries hsame)⟩
      generalize Key.ofChar c = key at hkey htyped
      cases hkey with
      | operator hc =>
          rw [htyped] at h
          cases h
      | dot =>
          have hdot : typed (keys ++ ['.']) = (typed keys).dot := htyped
          cases hflag : (typed keys).hasDot with
          | true => exact hkept (by decide) (by rw [hdot, dot, if_pos hflag])
          | false =>
              rw [dot, if_neg (Bool.eq_false_iff.mp hflag)] at hdot
              refine ⟨_, _, ?_, standsSince_self (congrArg Screen.entries hdot)⟩
              split <;> decide
      | delete =>
          have hdelete : typed (keys ++ ['<']) = (typed keys).delete := htyped
          cases hentries : (typed keys).entries with
          | nil => exact hkept (by decide) (by rw [hdelete, delete, hentries])
          | cons last entries =>
              rw [delete, hentries] at hdelete
              rw [hdelete] at h
              -- the flag stays up only if what is taken back is not the point
              obtain ⟨hflag, hlast⟩ := Bool.and_eq_true_iff.mp h
              obtain ⟨before, entry, hpoint, hstands⟩ := ih hflag
              have hback : (typed keys).entries = last :: (typed (keys ++ ['<'])).entries := by
                rw [hdelete]
                exact hentries
              refine ⟨before, entry, hpoint, hstands.deleted (by decide) hback ?_⟩
              rintro rfl
              rw [hpoint] at hlast
              cases hlast
      | cancel hc =>
          rw [htyped] at h
          cases h
      | equals =>
          have hequals : typed (keys ++ ['=']) = (typed keys).equals.value.2 := htyped
          rcases (typed keys).equals_eq_or with hsame | ⟨x, -, -, -, hvalue⟩
          · exact hkept (by decide) (hequals.trans hsame)
          · rw [hvalue] at hequals
            rw [hequals] at h
            exact ⟨_, _, h, standsSince_self (congrArg Screen.entries hequals)⟩
      | input hc _ _ =>
          have hinput : typed (keys ++ [c]) = (typed keys).type c.toString := htyped
          rw [hinput] at h
          obtain ⟨before, entry, hpoint, hstands⟩ := ih h
          exact ⟨before, entry, hpoint, hstands.typed hc (by rw [hinput]; rfl)⟩

/-- A point is refused exactly while the flag is up: otherwise it is one more entry. -/
theorem typed_point_eq_iff_hasDot {keys : List Char} :
    typed (keys ++ ['.']) = typed keys ↔ (typed keys).hasDot = true := by
  have hdot : typed (keys ++ ['.']) = (typed keys).dot := typed_concat keys '.'
  rw [hdot, dot]
  split
  · rename_i hflag
    exact ⟨fun _ => hflag, fun _ => rfl⟩
  · rename_i hflag
    refine ⟨fun hsame => ?_, fun h => absurd h hflag⟩
    have hlength := congrArg (List.length ∘ Screen.entries) hsame
    simp at hlength

/-- **The entries of a screen, and its flag**, after any keys. No entry is empty; each is a single
character, or a point with a zero in front of it, or else it is a value and the first of all. So
nothing has been typed exactly if the text is empty. A point is refused exactly while the flag is
up, and then there is an entry with a point that has stayed where it is since it came, and no
operator has been pressed since. -/
theorem typed_entries (keys : List Char) :
    (∀ i entry, (typed keys).entries.reverse[i]? = some entry →
      entry ≠ "" ∧ (IsKeyed entry ∨ i = 0 ∧ ∃ x, entry = Number.display x)) ∧
    ((typed keys).isEmpty = true ↔ (typed keys).text = "") ∧
    (typed (keys ++ ['.']) = typed keys ↔ (typed keys).hasDot = true) ∧
    ((typed keys).hasDot = true →
      ∃ before entry, containsDot entry = true ∧ StandsSince keys before entry) := by
  have hlayered : Layered (typed keys).entries := layered_typed keys
  refine ⟨fun i entry hi => ⟨?_, hlayered.getElem?_reverse hi⟩, isEmpty_iff_text hlayered,
    typed_point_eq_iff_hasDot, exists_standsSince_of_hasDot⟩
  exact hlayered.ne_empty (List.mem_reverse.mp (List.mem_iff_getElem?.mpr ⟨i, hi⟩))

/-- A value with a point is followed by a symbol that was typed; another point is refused. -/
theorem typed_entries_value_and_group :
    (typed "1.5+2.25=(".toList).entries = ["(", "3.75"] ∧
      IsKeyed "(" ∧ (typed "1.5+2.25=(.".toList) = typed "1.5+2.25=(".toList ∧
      ∃ before entry, containsDot entry = true ∧
        StandsSince "1.5+2.25=(".toList before entry := by
  obtain ⟨hentries, -, hrefused, hstands⟩ := typed_entries "1.5+2.25=(".toList
  have hflag : (typed "1.5+2.25=(".toList).hasDot = true := by decide +kernel
  have hlast : (typed "1.5+2.25=(".toList).entries.reverse[1]? = some "(" := by decide +kernel
  refine ⟨by decide +kernel, ?_, hrefused.mpr hflag, hstands hflag⟩
  rcases (hentries 1 "(" hlast).2 with hkeyed | ⟨hzero, -⟩
  · exact hkeyed
  · cases hzero

end Screen

end Calculator
