import Calculator.Proofs.Calculation
import Calculator.Proofs.Output
import Calculator.Worksheet
import Mathlib.Data.List.Induction

/-!
# What the lines of a worksheet come to

A line of a worksheet goes through the stages of a calculation, and comes to what its text comes to
(`Line.value_record`). The worksheet takes the lines in turn, and counts those that fail and those
of them that it reports in detail. The second count follows from the first
(`Worksheet.Reached.step`), so what is shown while a line is handled depends on the others in one
way only: by how many of those in front failed (`Worksheet.outputs_record`).
-/

namespace Calculator

theorem map_mapIdx {α β γ : Type} (g : β → γ) (f : Nat → α → β) (as : List α) :
    (as.mapIdx f).map g = as.mapIdx fun i a => g (f i a) := by
  rw [List.mapIdx_eq_zipIdx_map, List.mapIdx_eq_zipIdx_map, List.map_map]
  rfl

theorem mapIdx_eq_map {α β : Type} (f : α → β) (as : List α) :
    (as.mapIdx fun _ a => f a) = as.map f := by
  induction as with
  | nil => rfl
  | cons a as ih => rw [List.mapIdx_cons, ih, List.map_cons]

namespace Line

/-- What the text of a line comes to. -/
def calculated (l : Line) : Except Fault Calculation := Calculation.ofText (.ofList l.text)

/-- What is wrong with a line. One that is passed over is not looked at. -/
def fault? (l : Line) : Option Fault :=
  if l.isVoid then
    none
  else
    match l.calculated with
    | .error fault => some fault
    | .ok _ => none

/-- **A line comes to what its text comes to.** -/
theorem value_record (l : Line) :
    l.record.value =
      { notices := noticesOf (itemsOf (.ofList l.text))
        forest := (forestOf (tokensOf (itemsOf (.ofList l.text)))).toOption
        outcome := l.calculated.map Calculation.value } := by
  rw [calculated, Calculation.ofText_eq]
  simp only [record, Logged.value_bind, value_recordItems, value_recordForest]
  cases forestOf (tokensOf (itemsOf (.ofList l.text))) with
  | error fault => rfl
  | ok forest =>
      simp only [Logged.value_bind, value_recordValue]
      cases forest.value <;> rfl

/-- The stages of a line are recorded, and then what it came to. -/
theorem log_record (l : Line) :
    let tokens := tokensOf (itemsOf (.ofList l.text))
    l.record.log =
      (recordItems (.ofList l.text)).log ++ (recordForest tokens).log ++
        (match forestOf tokens with
          | .error _ => []
          | .ok trees => trees.recordValue.log) ++
        [l.event (l.calculated.map Calculation.value)] := by
  rw [calculated, Calculation.ofText_eq]
  simp only [record, Logged.log_bind, value_recordItems, value_recordForest]
  cases forestOf (tokensOf (itemsOf (.ofList l.text))) with
  | error fault =>
      simp only [List.append_nil, List.append_assoc]
      rfl
  | ok forest =>
      simp only [Logged.log_bind, value_recordValue]
      cases forest.value <;>
      · simp only [List.append_assoc]
        rfl

/-- A line that is not passed over fails if its text does. -/
theorem isSome_fault? {l : Line} (h : l.isVoid = false) :
    l.fault?.isSome = l.record.value.failed := by
  rw [fault?, if_neg (by rw [h]; exact Bool.false_ne_true), value_record, Result.failed]
  cases l.calculated <;> rfl

end Line

namespace Worksheet

/-- How many of some lines fail. -/
def failures (lines : List Line) : Nat := lines.countP (·.fault?.isSome)

/-- What is shown while a line is handled, if failures are still reported in detail or not. -/
def handled (m : Mode) (source : Source) (detailed : Bool) (l : Line) : List Output :=
  if l.isVoid then [] else lineOutputs m source detailed l l.record.value

/-- What is shown behind all lines. -/
def conclusion (m : Mode) (source : Source) : List Output :=
  let failed := failures (Line.allOf source.text.toList)
  if failed = 0 then [] else
    m.report source (closing source.name failed (min failed m.maxErrors))

@[simp] theorem failures_nil : failures [] = 0 := rfl

theorem failures_cons (l : Line) (lines : List Line) :
    failures (l :: lines) = failures lines + if l.fault?.isSome then 1 else 0 := List.countP_cons

/-! ## Line by line -/

theorem failures_concat (lines : List Line) (l : Line) :
    failures (lines ++ [l]) = failures lines + if l.fault?.isSome then 1 else 0 := by
  rw [failures, failures, List.countP_append, List.countP_singleton]

/-- A line that fails is counted, and reported in detail if that is still allowed. -/
theorem value_step (m : Mode) (source : Source) (p : Progress) (l : Line) :
    (step m source p l).value =
      { failed := p.failed + if l.fault?.isSome then 1 else 0
        displayed :=
          if l.fault?.isSome ∧ p.displayed < m.maxErrors then p.displayed + 1 else p.displayed
        shown := (handled m source (p.displayed < m.maxErrors) l).reverse ++ p.shown } := by
  rw [step, handled]
  cases hvoid : l.isVoid with
  | true =>
      have hfault : l.fault?.isSome = false := by rw [Line.fault?, if_pos hvoid]; rfl
      simp [hfault]
  | false =>
      rw [Line.isSome_fault? hvoid]
      cases hfailed : l.record.value.failed <;> simp [hfailed]

theorem log_step (m : Mode) (source : Source) (p : Progress) (l : Line) :
    (step m source p l).log = if l.isVoid then [] else l.record.log := by
  rw [step]
  split
  · rfl
  · rw [Logged.log_bind]
    split <;> exact List.append_nil _

/-- How far a worksheet has been run when some of its lines have been handled. -/
structure Reached (m : Mode) (source : Source) (done : List Line) (p : Progress) : Prop where
  failed : p.failed = failures done
  /-- Failures are reported in detail up to the number that the mode allows. -/
  displayed : p.displayed = min (failures done) m.maxErrors
  shown : p.shown.reverse = (done.mapIdx fun i l =>
    handled m source (failures (done.take i) < m.maxErrors) l).flatten

variable {m : Mode} {source : Source} {done : List Line} {p : Progress}

theorem reached_nil (m : Mode) (source : Source) : Reached m source [] {} where
  failed := rfl
  displayed := (Nat.zero_min _).symm
  shown := rfl

/-- The lines in front of a line decide whether it is reported in detail; those behind do not. -/
theorem mapIdx_handled_concat (m : Mode) (source : Source) (done : List Line) (l : Line) :
    ((done ++ [l]).mapIdx fun i k =>
        handled m source (failures ((done ++ [l]).take i) < m.maxErrors) k) =
      (done.mapIdx fun i k => handled m source (failures (done.take i) < m.maxErrors) k) ++
        [handled m source (failures done < m.maxErrors) l] := by
  rw [List.mapIdx_append]
  congr 1
  · refine List.mapIdx_eq_mapIdx_iff.mpr fun i hi => ?_
    rw [List.take_append_of_le_length (Nat.le_of_lt hi)]
  · rw [List.mapIdx_cons, List.mapIdx_nil, Nat.zero_add, List.take_left]

/-- **A line goes on from where the lines in front of it have come.** -/
theorem Reached.step (h : Reached m source done p) (l : Line) :
    Reached m source (done ++ [l]) (step m source p l).value := by
  have hleft : p.displayed < m.maxErrors ↔ failures done < m.maxErrors := by
    rw [h.displayed]
    omega
  rw [value_step]
  refine ⟨?_, ?_, ?_⟩
  · rw [failures_concat, h.failed]
  · simp only [failures_concat, h.displayed]
    cases l.fault?.isSome with
    | true =>
        simp only [true_and, if_true]
        split <;> omega
    | false => simp only [Bool.false_eq_true, false_and, if_false, Nat.add_zero]
  · rw [mapIdx_handled_concat, List.flatten_append, ← h.shown, List.flatten_singleton,
      List.reverse_append, List.reverse_reverse]
    simp only [hleft]

/-- Lines that are handled from the start come as far as their number of failures says. -/
theorem reached_foldlM (m : Mode) (source : Source) (lines : List Line) :
    Reached m source lines (lines.foldlM (Worksheet.step m source) {}).value := by
  induction lines using List.reverseRecOn with
  | nil => exact reached_nil m source
  | append_singleton lines l ih =>
      rw [Logged.value_foldlM] at ih ⊢
      rw [List.foldl_append]
      exact ih.step l

theorem failed_record (m : Mode) (source : Source) :
    (record m source).value.failed = failures (Line.allOf source.text.toList) :=
  (reached_foldlM m source _).failed

/-- **A worksheet handles its lines in turn**, and closes with a report if any failed. -/
theorem outputs_record (m : Mode) (source : Source) :
    (record m source).value.outputs =
      ((Line.allOf source.text.toList).mapIdx fun i l => handled m source
        (failures ((Line.allOf source.text.toList).take i) < m.maxErrors) l).flatten ++
      conclusion m source := by
  have hall := reached_foldlM m source (Line.allOf source.text.toList)
  simp only [conclusion]
  rw [← hall.shown, ← hall.displayed, ← hall.failed]
  rfl

end Worksheet

end Calculator
