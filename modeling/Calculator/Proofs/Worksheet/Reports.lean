import Calculator.Proofs.Worksheet.Printed

/-!
# What a worksheet reports

Every line that is not blank is warned about in full, and the first failures are reported, as many
as the mode allows; then all are counted (`Worksheet.diagnostics_record`). What is printed, and how
many lines fail, depends neither on how many are reported nor on whether any is.
-/

namespace Calculator

/-- What a mode lets through of diagnostics. -/
def Mode.admitted (m : Mode) (ds : List Diagnostic) : List Diagnostic := if m.quiet then [] else ds

@[simp] theorem Mode.admitted_nil (m : Mode) : m.admitted [] = [] := by
  rw [admitted]
  split <;> rfl

theorem Mode.admitted_append (m : Mode) (ds es : List Diagnostic) :
    m.admitted (ds ++ es) = m.admitted ds ++ m.admitted es := by
  simp only [admitted]
  split <;> rfl

theorem Mode.admitted_flatten (m : Mode) (dss : List (List Diagnostic)) :
    m.admitted dss.flatten = (dss.map m.admitted).flatten := by
  induction dss with
  | nil => exact m.admitted_nil
  | cons ds dss ih => rw [List.flatten_cons, admitted_append, ih, List.map_cons, List.flatten_cons]

namespace Line

/-- The warnings about a line, at their places in the worksheet. -/
def warnings (l : Line) : List Diagnostic :=
  if l.isVoid then
    []
  else
    (noticesOf (itemsOf (.ofList l.text))).map fun n => n.diagnostic.shift l.start

/-- The report on a line that fails, at its place in the worksheet. -/
def complaint? (l : Line) : Option Diagnostic := l.fault?.map fun f => f.diagnostic.shift l.start

theorem isSome_complaint? (l : Line) : l.complaint?.isSome = l.fault?.isSome := Option.isSome_map

theorem of_mem_warnings {l : Line} {d : Diagnostic} (h : d ∈ l.warnings) :
    d.severity = .warning ∧ d.label.isSome := by
  rw [warnings] at h
  split at h
  · cases h
  · obtain ⟨n, -, rfl⟩ := List.mem_map.mp h
    exact ⟨rfl, rfl⟩

theorem of_mem_complaint? {l : Line} {d : Diagnostic} (h : d ∈ l.complaint?) :
    d.severity = .error ∧ d.label.isSome := by
  obtain ⟨f, -, rfl⟩ := Option.map_eq_some_iff.mp h
  exact ⟨rfl, rfl⟩

end Line

namespace Worksheet

/-- What is reported while the line with an index is handled: its warnings, and then that it failed,
unless as many in front of it have failed as are reported. -/
def reportsAt (m : Mode) (lines : List Line) (i : Nat) (l : Line) : List Diagnostic :=
  l.warnings ++ if failures (lines.take i) < m.maxErrors then l.complaint?.toList else []

theorem failures_eq_length (lines : List Line) :
    failures lines = (lines.filterMap Line.complaint?).length := by
  rw [List.length_filterMap_eq_countP, failures]
  refine List.countP_congr fun l _ => ?_
  rw [l.isSome_complaint?]

/-! ## What is reported while a line is handled -/

theorem diagnostics_report (m : Mode) (source : Source) (d : Diagnostic) :
    Output.diagnostics (m.report source d) = m.admitted [d] := by
  rw [Mode.report, Mode.admitted]
  split <;> rfl

theorem diagnostics_warnings (m : Mode) (source : Source) (l : Line) (ns : List Notice) :
    Output.diagnostics (ns.flatMap fun n => m.report source (n.diagnostic.shift l.start)) =
      m.admitted (ns.map fun n => n.diagnostic.shift l.start) := by
  induction ns with
  | nil => exact m.admitted_nil.symm
  | cons n ns ih =>
      rw [List.flatMap_cons, Output.diagnostics_append, diagnostics_report, ih,
        ← Mode.admitted_append]
      rfl

theorem diagnostics_preface (m : Mode) (source : Source) (l : Line) :
    Output.diagnostics (preface m source l l.record.value) =
      m.admitted
        ((noticesOf (itemsOf (.ofList l.text))).map fun n => n.diagnostic.shift l.start) := by
  rw [preface, Output.diagnostics_append, diagnostics_warnings, l.value_record]
  -- the trees are printed, not reported
  cases forestOf (tokensOf (itemsOf (.ofList l.text))) with
  | error fault => exact List.append_nil _
  | ok trees =>
      simp only [Except.toOption]
      split <;> exact List.append_nil _

theorem diagnostics_handled (m : Mode) (source : Source) (detailed : Bool) (l : Line) :
    Output.diagnostics (handled m source detailed l) =
      m.admitted (l.warnings ++ if detailed then l.complaint?.toList else []) := by
  rw [handled, Line.warnings, Line.complaint?, Line.fault?]
  cases l.isVoid with
  | true => cases detailed <;> exact m.admitted_nil.symm
  | false =>
      simp only [Bool.false_eq_true, ↓reduceIte]
      rw [lineOutputs, Output.diagnostics_append, diagnostics_preface, l.value_record,
        Mode.admitted_append]
      congr 1
      cases l.calculated with
      | error fault =>
          cases detailed with
          | true => exact diagnostics_report m source _
          | false => exact m.admitted_nil.symm
      | ok calculation =>
          obtain ⟨value, notices⟩ := calculation
          cases value <;> cases detailed <;> exact m.admitted_nil.symm

theorem diagnostics_conclusion (m : Mode) (source : Source) :
    let failed := failures (Line.allOf source.text.toList)
    Output.diagnostics (conclusion m source) =
      m.admitted
        (if failed = 0 then [] else [closing source.name failed (min failed m.maxErrors)]) := by
  intro failed
  rw [conclusion]
  split
  · exact m.admitted_nil.symm
  · exact diagnostics_report m source _

theorem diagnostics_outputs (m : Mode) (source : Source) :
    let lines := Line.allOf source.text.toList
    let failed := failures lines
    Output.diagnostics (record m source).value.outputs =
      m.admitted ((lines.mapIdx (reportsAt m lines)).flatten ++
        if failed = 0 then [] else [closing source.name failed (min failed m.maxErrors)]) := by
  intro lines failed
  rw [outputs_record, Output.diagnostics_append, diagnostics_conclusion,
    Output.diagnostics_flatten, map_mapIdx, Mode.admitted_append, Mode.admitted_flatten, map_mapIdx]
  simp only [diagnostics_handled, decide_eq_true_eq]
  rfl

/-! ## Warnings and failures apart -/

/-- Of the failures the first are reported. -/
theorem flatten_mapIdx_complaint? (lines : List Line) (left : Nat) :
    (lines.mapIdx fun i l =>
        if failures (lines.take i) < left then l.complaint?.toList else []).flatten =
      (lines.filterMap Line.complaint?).take left := by
  induction lines generalizing left with
  | nil => exact List.take_nil.symm
  | cons l lines ih =>
      rw [List.mapIdx_cons, List.flatten_cons, List.take_zero]
      simp only [List.take_succ_cons, failures_cons]
      rw [← l.isSome_complaint?]
      cases hl : l.complaint? with
      | none =>
          rw [List.filterMap_cons_none hl, ← ih]
          simp only [Option.toList_none, ite_self, List.nil_append]
          rfl
      | some d =>
          rw [List.filterMap_cons_some hl]
          cases left with
          | zero => simp
          | succ left =>
              simp only [Option.isSome_some, ↓reduceIte, Nat.add_lt_add_iff_right]
              rw [ih, List.take_succ_cons, failures_nil, if_pos (Nat.succ_pos left)]
              rfl

theorem of_mem_detail {l : Line} {d : Diagnostic} {p : Prop} [Decidable p]
    (h : d ∈ if p then l.complaint?.toList else []) : d.severity = .error ∧ d.label.isSome := by
  split at h
  · exact Line.of_mem_complaint? (Option.mem_toList.mp h)
  · cases h

theorem filter_error_reportsAt (m : Mode) (lines : List Line) (i : Nat) (l : Line) :
    (reportsAt m lines i l).filter (·.severity = .error) =
      if failures (lines.take i) < m.maxErrors then l.complaint?.toList else [] := by
  have hwarnings : l.warnings.filter (·.severity = .error) = [] := by
    refine List.filter_eq_nil_iff.mpr fun d hd => ?_
    rw [(Line.of_mem_warnings hd).1]
    decide
  rw [reportsAt, List.filter_append, hwarnings, List.nil_append]
  refine List.filter_eq_self.mpr fun d hd => ?_
  rw [(of_mem_detail hd).1]
  rfl

theorem filter_warning_reportsAt (m : Mode) (lines : List Line) (i : Nat) (l : Line) :
    (reportsAt m lines i l).filter (·.severity = .warning) = l.warnings := by
  have hdetail : (if failures (lines.take i) < m.maxErrors then l.complaint?.toList
      else []).filter (·.severity = .warning) = [] := by
    refine List.filter_eq_nil_iff.mpr fun d hd => ?_
    rw [(of_mem_detail hd).1]
    decide
  rw [reportsAt, List.filter_append, hdetail, List.append_nil]
  refine List.filter_eq_self.mpr fun d hd => ?_
  rw [(Line.of_mem_warnings hd).1]
  rfl

theorem isSome_label_reportsAt {m : Mode} {lines : List Line} {i : Nat} {l : Line} {d : Diagnostic}
    (h : d ∈ reportsAt m lines i l) : d.label.isSome := by
  rcases List.mem_append.mp h with hwarning | hdetail
  · exact (Line.of_mem_warnings hwarning).2
  · exact (of_mem_detail hdetail).2

theorem filter_error_details (m : Mode) (lines : List Line) :
    (lines.mapIdx (reportsAt m lines)).flatten.filter (·.severity = .error) =
      (lines.filterMap Line.complaint?).take
        (min (lines.filterMap Line.complaint?).length m.maxErrors) := by
  rw [List.filter_flatten, map_mapIdx]
  simp only [filter_error_reportsAt]
  rw [flatten_mapIdx_complaint?, Nat.min_comm, ← List.take_eq_take_min]

theorem filter_warning_details (m : Mode) (lines : List Line) :
    (lines.mapIdx (reportsAt m lines)).flatten.filter (·.severity = .warning) =
      lines.flatMap Line.warnings := by
  rw [List.filter_flatten, map_mapIdx]
  simp only [filter_warning_reportsAt]
  rw [mapIdx_eq_map, List.flatMap_def]

theorem closing_eq (name : String) (failed displayed : Nat) :
    closing name failed displayed =
      .general ("could not evaluate " ++ name ++ " due to " ++ toString failed ++ " previous " ++
        (if 1 < failed then "errors" else "error") ++ " (" ++ toString displayed ++
        " emitted)") := by
  rw [closing]
  simp only [toString, String.append_assoc]

/-- **Reports are accounted for, and what is calculated does not depend on them.** In any two modes
that agree on whether trees are shown, a worksheet prints the same, and in all modes the same lines
fail. A quiet worksheet reports nothing. One that is not quiet reports on the lines in turn, a
line's warnings in front of its failure: of the failures the first `maxErrors`, of the warnings
all; and then, if any line failed, how many did and how many of these were reported. -/
theorem diagnostics_record (source : Source) :
    let lines := Line.allOf source.text.toList
    let complaints := lines.filterMap Line.complaint?
    let failed := complaints.length
    (∀ m m' : Mode, m.showTrees = m'.showTrees →
      Output.written (record m source).value.outputs =
        Output.written (record m' source).value.outputs) ∧
    (∀ m : Mode, (record m source).value.failed = failed) ∧
    (∀ m : Mode, m.quiet = true → Output.diagnostics (record m source).value.outputs = []) ∧
    ∀ m : Mode, m.quiet = false →
      let details := (lines.mapIdx (reportsAt m lines)).flatten
      Output.diagnostics (record m source).value.outputs =
          details ++
            (if failed = 0 then []
            else
              [.general ("could not evaluate " ++ source.name ++ " due to " ++ toString failed ++
                " previous " ++ (if 1 < failed then "errors" else "error") ++ " (" ++
                toString (min failed m.maxErrors) ++ " emitted)")]) ∧
        details.filter (·.severity = .error) = complaints.take (min failed m.maxErrors) ∧
        details.filter (·.severity = .warning) = lines.flatMap Line.warnings ∧
        ∀ d ∈ details, d.label.isSome := by
  intro lines complaints failed
  have hfailed : failures lines = failed := failures_eq_length lines
  refine ⟨?_, fun m => (failed_record m source).trans hfailed, ?_, ?_⟩
  · intro m m' htrees
    rw [written_record, written_record, htrees]
  · intro m hquiet
    rw [diagnostics_outputs, Mode.admitted, if_pos hquiet]
  · intro m hloud details
    refine ⟨?_, filter_error_details m lines, filter_warning_details m lines, ?_⟩
    · have hadmitted (ds : List Diagnostic) : m.admitted ds = ds := by simp [Mode.admitted, hloud]
      rw [diagnostics_outputs, hadmitted, hfailed, closing_eq]
    · intro d hd
      obtain ⟨reports, hreports, hmem⟩ := List.mem_flatten.mp hd
      obtain ⟨i, hi, rfl⟩ := List.mem_mapIdx.mp hreports
      exact isSome_label_reportsAt hmem

/-- Two lines fail and one is reported; the warnings behind it still are. -/
theorem diagnostics_record_two_failures :
    let source : Source := ⟨"<expr>", "(1\n7?\n@)\n"⟩
    let told (m : Mode) := Output.diagnostics (record m source).value.outputs
    (told { maxErrors := 1 }).map Diagnostic.message =
        ["expected closing parenthesis", "skipped invalid character '?'",
          "skipped invalid character '@'",
          "could not evaluate <expr> due to 2 previous errors (1 emitted)"] ∧
      told { quiet := true } = [] ∧
      Output.written (record { maxErrors := 1 } source).value.outputs =
        Output.written (record { quiet := true } source).value.outputs := by
  intro source told
  obtain ⟨hwritten, -, hquiet, hloud⟩ := diagnostics_record source
  refine ⟨?_, hquiet { quiet := true } rfl, hwritten _ _ rfl⟩
  refine (congrArg _ (hloud { maxErrors := 1 } rfl).1).trans ?_
  decide +kernel

end Worksheet

end Calculator
