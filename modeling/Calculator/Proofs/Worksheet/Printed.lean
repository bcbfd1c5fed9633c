import Calculator.Proofs.Text.Lines
import Calculator.Proofs.Worksheet.Results

/-!
# What a worksheet prints

On standard output a worksheet is calculated line by line: every line that is not blank prints what
its own text comes to, and nothing else is printed (`Worksheet.record_line_by_line`). So a worksheet
that is cut where a line begins prints what the two parts print.
-/

namespace Calculator

/-- The lines of a text, those left out that are blank. -/
def linesOf (text : String) : List String :=
  (((pieces text.toList).map withoutLineEnd).filter fun line => !line.all isBlank).map String.ofList

/-- What a line prints: its trees, if they are asked for and its tokens form a forest, and then its
value, if it has one. -/
def printedLine (showTrees : Bool) (line : String) : String :=
  (match forestOf (tokensOf (itemsOf line)) with
    | .ok trees => if showTrees then " ".intercalate (trees.map Expr.polish) ++ "\n" else ""
    | .error _ => "") ++
  match Calculation.ofText line with
    | .ok ⟨some x, _⟩ => Number.display x ++ "\n"
    | _ => ""

/-- Whether an event tells what a line came to. -/
def Event.closesLine : Event → Bool
  | evaluatedLine .. => true
  | emptyLine _ => true
  | failedLine .. => true
  | _ => false

/-! ## The lines -/

theorem linesOf_append {a : String} (h : EndsLine a.toList) (b : String) :
    linesOf (a ++ b) = linesOf a ++ linesOf b := by
  rw [linesOf, String.toList_append, pieces_append h, List.map_append, List.filter_append,
    List.map_append]
  rfl

namespace Line

theorem map_text_ofPieces (number start : Nat) (ps : List (List Char)) :
    (ofPieces number start ps).map Line.text = ps.map withoutLineEnd := by
  induction ps generalizing number start with
  | nil => rfl
  | cons p ps ih => rw [ofPieces, List.map_cons, ih, List.map_cons]

theorem map_text_allOf (text : List Char) :
    (allOf text).map Line.text = (pieces text).map withoutLineEnd := map_text_ofPieces ..

theorem linesOf_eq (text : String) :
    linesOf text = ((allOf text.toList).filter (!·.isVoid)).map fun l => String.ofList l.text := by
  rw [linesOf, ← map_text_allOf, List.filter_map, List.map_map]
  rfl

end Line

/-! ## What is printed -/

namespace Worksheet

/-- Diagnostics are not printed. -/
theorem written_report (m : Mode) (source : Source) (d : Diagnostic) :
    Output.written (m.report source d) = "" := by
  rw [Mode.report]
  split <;> rfl

theorem written_warnings (m : Mode) (source : Source) (l : Line) (ns : List Notice) :
    Output.written (ns.flatMap fun n => m.report source (n.diagnostic.shift l.start)) = "" := by
  induction ns with
  | nil => rfl
  | cons n ns ih =>
      rw [List.flatMap_cons, Output.written_append, written_report, ih]
      rfl

theorem written_conclusion (m : Mode) (source : Source) :
    Output.written (conclusion m source) = "" := by
  rw [conclusion]
  split
  · rfl
  · exact written_report ..

theorem written_preface (m : Mode) (source : Source) (l : Line) :
    Output.written (preface m source l l.record.value) =
      match forestOf (tokensOf (itemsOf (.ofList l.text))) with
      | .ok trees => if m.showTrees then " ".intercalate (trees.map Expr.polish) ++ "\n" else ""
      | .error _ => "" := by
  rw [preface, Output.written_append, written_warnings, l.value_record, String.empty_append]
  cases forestOf (tokensOf (itemsOf (.ofList l.text))) with
  | error fault => rfl
  | ok trees =>
      simp only [Except.toOption]
      split
      · rw [Output.written_printed]
        rfl
      · rfl

/-- Whether failures are still reported in detail plays no part in what is printed. -/
theorem written_handled (m : Mode) (source : Source) (detailed : Bool) {l : Line}
    (hvoid : l.isVoid = false) :
    Output.written (handled m source detailed l) = printedLine m.showTrees (.ofList l.text) := by
  rw [handled, if_neg (by rw [hvoid]; exact Bool.false_ne_true), lineOutputs,
    Output.written_append, written_preface, printedLine, l.value_record]
  congr 1
  simp only [Line.calculated]
  cases Calculation.ofText (.ofList l.text) with
  | error fault =>
      simp only [Except.map]
      split
      · exact written_report ..
      · rfl
  | ok calculation =>
      obtain ⟨value, notices⟩ := calculation
      cases value with
      | none => rfl
      | some x => exact Output.written_printed _

theorem written_mapIdx_handled (m : Mode) (source : Source) (detailed : Nat → Bool)
    (lines : List Line) :
    Output.written (lines.mapIdx fun i l => handled m source (detailed i) l).flatten =
      String.join ((lines.filter (!·.isVoid)).map fun l =>
        printedLine m.showTrees (.ofList l.text)) := by
  induction lines generalizing detailed with
  | nil => rfl
  | cons l lines ih =>
      rw [List.mapIdx_cons, List.flatten_cons, Output.written_append, ih fun i => detailed (i + 1)]
      cases hvoid : l.isVoid with
      | true =>
          rw [List.filter_cons_of_neg (by simp [hvoid]), handled, if_pos hvoid,
            Output.written_nil, String.empty_append]
      | false =>
          rw [List.filter_cons_of_pos (by simp [hvoid]), written_handled m source _ hvoid,
            List.map_cons, String.join_cons]

theorem written_record (m : Mode) (source : Source) :
    Output.written (record m source).value.outputs =
      String.join ((linesOf source.text).map (printedLine m.showTrees)) := by
  rw [outputs_record, Output.written_append, written_conclusion, String.append_empty,
    written_mapIdx_handled, Line.linesOf_eq, List.map_map]
  rfl

/-! ## What fails -/

theorem failed_record_eq_countP (m : Mode) (source : Source) :
    (record m source).value.failed =
      (linesOf source.text).countP fun line => !(Calculation.ofText line).isOk := by
  rw [failed_record, Line.linesOf_eq, List.countP_map, List.countP_filter, failures]
  refine List.countP_congr fun l _ => ?_
  rw [Line.fault?]
  cases l.isVoid with
  | true => simp
  | false =>
      simp only [Line.calculated, Function.comp_apply]
      cases Calculation.ofText (.ofList l.text) <;> simp [Except.isOk, Except.toBool]

/-! ## What the journal says -/

theorem filter_itemEvents (items : List Item) :
    (items.flatMap Cursor.itemEvents).filter Event.closesLine = [] := by
  induction items with
  | nil => rfl
  | cons i items ih =>
      rw [List.flatMap_cons, List.filter_append, ih]
      cases i <;> rfl

theorem filter_log_recordAll (c : Cursor) : c.recordAll.log.filter Event.closesLine = [] := by
  fun_induction Cursor.recordAll c with
  | case1 c d events hnext =>
      have hlog : c.next.log = events := by rw [hnext]
      rw [← hlog]
      exact filter_itemEvents _
  | case2 c i d events hnext later ih =>
      have hlog : c.next.log = events := by rw [hnext]
      have hevents : events.filter Event.closesLine = [] := hlog ▸ filter_itemEvents _
      rw [List.filter_append, hevents, ih, List.append_nil]

theorem filter_log_recordForest (tokens : List Token) :
    (recordForest tokens).log.filter Event.closesLine = [] := by
  rw [recordForest, Logged.log_map, Feed.recordForest]
  cases (Feed.ofTokens tokens).forest.1 <;> rfl

theorem filter_log_recordValue (trees : Forest) :
    trees.recordValue.log.filter Event.closesLine = [] := by
  rw [Forest.recordValue]
  match trees.value with
  | .error _ => rfl
  | .ok none => rfl
  | .ok (some _) => rfl

/-- What a line came to is said once. -/
theorem filter_log_line (l : Line) :
    l.record.log.filter Event.closesLine = [l.event (l.calculated.map Calculation.value)] := by
  have hlast : (l.event (l.calculated.map Calculation.value)).closesLine = true := by
    match l.calculated.map Calculation.value with
    | .error _ => rfl
    | .ok none => rfl
    | .ok (some _) => rfl
  have hitems : (recordItems (.ofList l.text)).log.filter Event.closesLine = [] :=
    filter_log_recordAll _
  rw [l.log_record, List.filter_append, List.filter_append, List.filter_append, hitems,
    filter_log_recordForest, List.filter_cons_of_pos hlast]
  cases forestOf (tokensOf (itemsOf (.ofList l.text))) with
  | error fault => rfl
  | ok trees =>
      simp only [filter_log_recordValue]
      rfl

theorem filter_log_record (m : Mode) (source : Source) :
    (record m source).log.filter Event.closesLine =
      ((Line.allOf source.text.toList).filter (!·.isVoid)).map fun l =>
        l.event (l.calculated.map Calculation.value) := by
  have hlog : (record m source).log =
      (Line.allOf source.text.toList).flatMap fun l => if l.isVoid then [] else l.record.log := by
    rw [record, Logged.log_bind, Logged.log_foldlM (log_step m source), Logged.log_pure,
      List.append_nil]
  rw [hlog, List.filter_flatMap]
  induction Line.allOf source.text.toList with
  | nil => rfl
  | cons l lines ih =>
      rw [List.flatMap_cons, ih]
      cases hvoid : l.isVoid with
      | true =>
          rw [List.filter_cons_of_neg (by simp [hvoid])]
          rfl
      | false =>
          rw [List.filter_cons_of_pos (by simp [hvoid]), if_neg Bool.false_ne_true,
            filter_log_line, List.map_cons, List.singleton_append]

/-- **A worksheet is calculated line by line.** It prints, in order, what each of its lines comes to
by itself; as many lines fail as have a text that fails; what is made of a line, and recorded, is
what its text comes to. Where a line begins, a worksheet can be cut, and the parts print and fail as
before: no line touches another. -/
theorem record_line_by_line (m : Mode) (source : Source) :
    let lines := (Line.allOf source.text.toList).filter (!·.isVoid)
    Output.written (record m source).value.outputs =
        String.join ((linesOf source.text).map (printedLine m.showTrees)) ∧
      (record m source).value.failed =
        (linesOf source.text).countP (fun line => !(Calculation.ofText line).isOk) ∧
      lines.map (fun l => String.ofList l.text) = linesOf source.text ∧
      (∀ l : Line, l.record.value.outcome =
        (Calculation.ofText (.ofList l.text)).map Calculation.value) ∧
      (record m source).log.filter Event.closesLine =
        lines.map (fun l => l.event ((Calculation.ofText (.ofList l.text)).map Calculation.value)) ∧
      ∀ a b : String, source.text = a ++ b → EndsLine a.toList →
        let first := (record m { source with text := a }).value
        let second := (record m { source with text := b }).value
        Output.written (record m source).value.outputs =
            Output.written first.outputs ++ Output.written second.outputs ∧
          (record m source).value.failed = first.failed + second.failed := by
  intro lines
  refine ⟨written_record m source, failed_record_eq_countP m source, (Line.linesOf_eq _).symm,
    fun l => congrArg _ l.value_record, filter_log_record m source, ?_⟩
  intro a b htext hend first second
  have hlines : linesOf source.text = linesOf a ++ linesOf b := by
    rw [htext, linesOf_append hend]
  constructor
  · rw [written_record, written_record, written_record, hlines, List.map_append,
      String.join_append]
  · rw [failed_record_eq_countP, failed_record_eq_countP, failed_record_eq_countP, hlines,
      List.countP_append]

/-- A line that fails and an empty one, between two that have a value. -/
theorem record_line_by_line_around_open_group :
    let run (text : String) := (record { showTrees := true } ⟨"<expr>", text⟩).value
    Output.written (run "1+1\n(2\r\n\n3x3").outputs = "(+ 1 1)\n2\n3 3\n9\n" ∧
      (run "1+1\n(2\r\n\n3x3").failed = 1 ∧
      Output.written (run "1+1\n(2\r\n\n3x3").outputs =
        Output.written (run "1+1\n(2\r\n").outputs ++ Output.written (run "\n3x3").outputs ∧
      linesOf "1+1\n(2\r\n\n3x3" = ["1+1", "(2", "3x3"] := by
  intro run
  obtain ⟨hwritten, hfailed, -, -, -, hcut⟩ :=
    record_line_by_line { showTrees := true } ⟨"<expr>", "1+1\n(2\r\n\n3x3"⟩
  have hlines : linesOf "1+1\n(2\r\n\n3x3" = ["1+1", "(2", "3x3"] := by decide +kernel
  refine ⟨?_, ?_, (hcut "1+1\n(2\r\n" "\n3x3" rfl (by decide)).1, hlines⟩
  · rw [hwritten, hlines]
    decide +kernel
  · rw [hfailed, hlines]
    decide +kernel

end Worksheet

end Calculator
