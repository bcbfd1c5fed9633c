import Calculator.Text.Line
import Mathlib.Data.List.DropRight

/-!
# The pieces of a text

The pieces of a text are the only way to cut it so that each part ends behind its one line feed, or
is what is left at the end (`pieces_eq_iff`). So a text that is cut behind a line feed has the
pieces of both parts, one after the other, and in front of a piece there are as many line feeds as
pieces, which tells on which line a place is (`line_placeOf`).
-/

namespace Calculator

/-- Whether a line may begin behind a text. -/
def EndsLine (cs : List Char) : Prop := ∀ c ∈ cs.getLast?, c = '\n'

instance (cs : List Char) : Decidable (EndsLine cs) :=
  decidable_of_iff (cs.getLast?.all (· == '\n') = true) (by simp [EndsLine, Option.all_eq_true])

/-- Whether every part ends behind the only line feed in it; the last may lack it, if something else
is there. -/
inductive Pieced : List (List Char) → Prop
  | nil : Pieced []
  | rest {line : List Char} (hline : '\n' ∉ line) (hne : line ≠ []) : Pieced [line]
  | ended {line : List Char} {ps : List (List Char)} (hline : '\n' ∉ line) (hps : Pieced ps) :
      Pieced ((line ++ ['\n']) :: ps)

/-! ## The only way to cut a text -/

theorem pieces_of_not_mem {line : List Char} (hline : '\n' ∉ line) (hne : line ≠ []) :
    pieces line = [line] := by
  induction line with
  | nil => exact absurd rfl hne
  | cons c line ih =>
      obtain ⟨hc, hline⟩ := List.ne_and_not_mem_of_not_mem_cons hline
      rw [pieces, if_neg (Ne.symm hc)]
      cases line with
      | nil => rfl
      | cons d line => rw [ih hline (List.cons_ne_nil d line)]

theorem pieces_append_newline {line : List Char} (hline : '\n' ∉ line) (cs : List Char) :
    pieces (line ++ '\n' :: cs) = (line ++ ['\n']) :: pieces cs := by
  induction line with
  | nil => rfl
  | cons c line ih =>
      obtain ⟨hc, hline⟩ := List.ne_and_not_mem_of_not_mem_cons hline
      rw [List.cons_append, pieces, if_neg (Ne.symm hc), ih hline]
      rfl

theorem pieced_pieces (cs : List Char) : Pieced (pieces cs) := by
  induction cs with
  | nil => exact .nil
  | cons c cs ih =>
      rw [pieces]
      by_cases hc : c = '\n'
      · rw [if_pos hc, hc]
        exact .ended List.not_mem_nil ih
      · rw [if_neg hc]
        have hfront {line : List Char} (hline : '\n' ∉ line) : '\n' ∉ c :: line :=
          List.not_mem_cons_of_ne_of_not_mem (Ne.symm hc) hline
        -- the character goes in front of the first piece, whatever that is
        generalize pieces cs = ps at ih
        cases ih with
        | nil => exact .rest (hfront List.not_mem_nil) (List.cons_ne_nil c [])
        | rest hline _ => exact .rest (hfront hline) (List.cons_ne_nil c _)
        | ended hline hps => exact .ended (hfront hline) hps

/-- **The pieces of a text are the only way to cut it behind every line feed.** -/
theorem pieces_eq_iff {cs : List Char} {ps : List (List Char)} :
    pieces cs = ps ↔ Pieced ps ∧ ps.flatten = cs := by
  constructor
  · rintro rfl
    exact ⟨pieced_pieces cs, flatten_pieces cs⟩
  · rintro ⟨hps, rfl⟩
    induction hps with
    | nil => rfl
    | rest hline hne => rw [List.flatten_singleton, pieces_of_not_mem hline hne]
    | ended hline _ ih =>
        rw [List.flatten_cons, List.append_assoc, List.singleton_append,
          pieces_append_newline hline, ih]

/-! ## Texts that are cut behind a line feed -/

theorem EndsLine.of_append {a b : List Char} (h : EndsLine (a ++ b)) (hb : b ≠ []) :
    EndsLine b := by
  intro c hc
  refine h c ?_
  rw [List.getLast?_append_of_ne_nil _ hb]
  exact hc

theorem Pieced.append {ps qs : List (List Char)} (hps : Pieced ps) (hqs : Pieced qs)
    (hend : EndsLine ps.flatten) : Pieced (ps ++ qs) := by
  induction hps with
  | nil => exact hqs
  | @rest line hline hne =>
      rw [List.flatten_singleton] at hend
      have hlast : line.getLast hne = '\n' := hend _ (List.getLast?_eq_some_getLast hne)
      refine absurd ?_ hline
      rw [← hlast]
      exact List.getLast_mem hne
  | @ended line ps hline hps ih =>
      refine .ended hline (ih ?_)
      cases ps with
      | nil => exact fun c hc => by cases hc
      | cons p ps =>
          refine hend.of_append fun hnil => ?_
          cases hps with
          | rest _ hne => exact hne (by simpa using hnil)
          | ended => simp at hnil

/-- Where a line begins, the pieces in front and behind are apart. -/
theorem pieces_append {a : List Char} (h : EndsLine a) (b : List Char) :
    pieces (a ++ b) = pieces a ++ pieces b := by
  refine pieces_eq_iff.mpr ⟨(pieced_pieces a).append (pieced_pieces b) ?_, ?_⟩
  · rw [flatten_pieces]
    exact h
  · rw [List.flatten_append, flatten_pieces, flatten_pieces]

/-! ## Lines -/

theorem withoutLineEnd_begins (cs : List Char) : withoutLineEnd cs <+: cs :=
  List.rdropWhile_prefix isLineEnd cs

/-- In front of a piece there are as many line feeds as pieces, and none in its line. -/
theorem Pieced.count_newline {before after : List (List Char)} {piece : List Char}
    (h : Pieced (before ++ piece :: after)) :
    before.flatten.count '\n' = before.length ∧ '\n' ∉ withoutLineEnd piece := by
  induction before with
  | nil =>
      refine ⟨rfl, ?_⟩
      cases h with
      | rest hline _ => exact fun hmem => hline ((withoutLineEnd_begins _).subset hmem)
      | @ended line _ hline _ =>
          have hdrop : withoutLineEnd (line ++ ['\n']) = withoutLineEnd line :=
            List.rdropWhile_concat_pos isLineEnd line '\n' rfl
          rw [hdrop]
          exact fun hmem => hline ((withoutLineEnd_begins _).subset hmem)
  | cons p before ih =>
      have hne : before ++ piece :: after ≠ [] :=
        List.append_ne_nil_of_right_ne_nil before (List.cons_ne_nil piece after)
      rw [List.cons_append] at h
      generalize hps : before ++ piece :: after = ps at h hne
      cases h with
      | rest => exact absurd rfl hne
      | @ended line _ hline hrest =>
          obtain ⟨hcount, hnone⟩ := ih (hps ▸ hrest)
          refine ⟨?_, hnone⟩
          rw [List.flatten_cons, List.count_append, List.count_append, hcount,
            List.count_eq_zero.mpr hline, List.length_cons, List.count_singleton_self]
          omega

theorem line_foldl_after (cs : List Char) (p : Place) :
    (cs.foldl Place.after p).line = p.line + cs.count '\n' := by
  induction cs generalizing p with
  | nil => rfl
  | cons c cs ih =>
      rw [List.foldl_cons, ih, Place.after]
      by_cases hc : c = '\n'
      · rw [if_pos hc, hc, List.count_cons_self]
        exact Nat.add_right_comm _ _ _
      · rw [if_neg hc, List.count_cons_of_ne hc]

/-- The line of a place is told by the line feeds in front of it. -/
theorem line_placeOf (before after : List Char) :
    (placeOf (before ++ after) (byteLength before)).line = before.count '\n' + 1 := by
  rw [placeOf, splitBytes?_append, Option.map_some, Option.getD_some, line_foldl_after,
    Nat.add_comm]

end Calculator
