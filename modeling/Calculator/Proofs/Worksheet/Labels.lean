import Calculator.Proofs.Fault
import Calculator.Proofs.Worksheet.Reports

/-!
# Where the labels of a worksheet point

A line stands in its worksheet behind the lines in front of it (`Line.exists_around`), so a place in
the line, moved by where the line begins, covers in the worksheet what it covered in the line. The
labels that are shown while a line is handled therefore quote that line, on whatever line of the
worksheet it stands (`Worksheet.labels_quote_line`).
-/

namespace Calculator

/-! ## A part of a text in a longer text -/

namespace Span

theorem slice?_shift {s : Span} {text part : List Char} (h : s.slice? text = some part)
    (before after : List Char) :
    (s.shift (byteLength before)).slice? (before ++ text ++ after) = some part := by
  obtain ⟨front, rest, rfl, hlo, hhi⟩ := slice?_eq_some_iff.mp h
  refine slice?_eq_some_iff.mpr ⟨before ++ front, rest ++ after, ?_, ?_, ?_⟩
  · simp only [List.append_assoc]
  · rw [byteLength_append, shift_lo, hlo, Nat.add_comm]
  · rw [byteLength_append, shift_hi, ← hhi]
    omega

theorem hi_le_of_slice? {s : Span} {text part : List Char} (h : s.slice? text = some part) :
    s.hi ≤ byteLength text := by
  obtain ⟨front, rest, rfl, -, hhi⟩ := slice?_eq_some_iff.mp h
  rw [byteLength_append, byteLength_append, hhi]
  exact Nat.le_add_right _ _

end Span

/-! ## A line in its worksheet -/

namespace Line

theorem getElem?_ofPieces (number start : Nat) (ps : List (List Char)) (i : Nat) :
    (ofPieces number start ps)[i]? = ps[i]?.map fun piece =>
      ⟨number + i, start + byteLength (ps.take i).flatten, withoutLineEnd piece⟩ := by
  induction ps generalizing number start i with
  | nil => rfl
  | cons p ps ih =>
      cases i with
      | zero => rfl
      | succ i =>
          rw [ofPieces, List.getElem?_cons_succ, List.getElem?_cons_succ, ih, List.take_succ_cons,
            List.flatten_cons, byteLength_append, Nat.add_assoc, Nat.add_assoc, Nat.add_comm 1 i]

/-- The lines of a text are its pieces without their line ends, each beginning where those in front
end. -/
theorem allOf_eq_mapIdx (text : List Char) :
    allOf text = (pieces text).mapIdx fun i piece =>
      ⟨i + 1, byteLength ((pieces text).take i).flatten, withoutLineEnd piece⟩ := by
  refine List.ext_getElem? fun i => ?_
  rw [allOf, getElem?_ofPieces, List.getElem?_mapIdx]
  simp only [Nat.zero_add, Nat.add_comm 1 i]

/-- A line stands behind as many line feeds as there are lines in front of it, and has none. -/
theorem exists_around {text : List Char} {i : Nat} {l : Line} (h : (allOf text)[i]? = some l) :
    ∃ before after, text = before ++ l.text ++ after ∧ byteLength before = l.start ∧
      before.count '\n' = i ∧ '\n' ∉ l.text := by
  rw [allOf_eq_mapIdx, List.getElem?_mapIdx] at h
  obtain ⟨piece, hpiece, rfl⟩ := Option.map_eq_some_iff.mp h
  obtain ⟨hi, rfl⟩ := List.getElem?_eq_some_iff.mp hpiece
  have hcut : (pieces text).take i ++ (pieces text)[i] :: (pieces text).drop (i + 1) =
      pieces text := by
    rw [List.getElem_cons_drop, List.take_append_drop]
  have hpieced : Pieced (pieces text) := pieced_pieces text
  rw [← hcut] at hpieced
  obtain ⟨hcount, hnone⟩ := hpieced.count_newline
  obtain ⟨lineEnd, hend⟩ := withoutLineEnd_begins (pieces text)[i]
  refine ⟨((pieces text).take i).flatten, lineEnd ++ ((pieces text).drop (i + 1)).flatten, ?_, rfl,
    ?_, hnone⟩
  · rw [List.append_assoc, ← List.append_assoc (withoutLineEnd _), hend, ← List.flatten_cons,
      ← List.flatten_append, hcut, flatten_pieces]
  · rw [hcount, List.length_take, Nat.min_eq_left (Nat.le_of_lt hi)]

/-- What a place covers in a line, it covers in the worksheet, moved to the line. -/
theorem slice?_shift_start {text part : List Char} {i : Nat} {l : Line} {s : Span}
    (hl : (allOf text)[i]? = some l) (hs : s.slice? l.text = some part) :
    (s.shift l.start).slice? text = some part ∧
      (s.shift l.start).hi ≤ l.start + byteLength l.text ∧
      (placeOf text (s.shift l.start).lo).line = i + 1 := by
  obtain ⟨before, after, rfl, hstart, hcount, hnone⟩ := exists_around hl
  rw [← hstart]
  refine ⟨Span.slice?_shift hs before after, ?_, ?_⟩
  · have hle : s.hi ≤ byteLength l.text := Span.hi_le_of_slice? hs
    rw [Span.shift_hi]
    omega
  · -- in front of the place, in the line, stands no line feed
    obtain ⟨front, rest, htext, hlo, -⟩ := Span.slice?_eq_some_iff.mp hs
    have hfront : front.count '\n' = 0 := by
      refine List.count_eq_zero.mpr fun hmem => hnone ?_
      rw [htext]
      simp [hmem]
    have hwhole : before ++ l.text ++ after = (before ++ front) ++ (part ++ rest ++ after) := by
      rw [htext]
      simp only [List.append_assoc]
    have hbyte : (s.shift (byteLength before)).lo = byteLength (before ++ front) := by
      rw [Span.shift_lo, byteLength_append, hlo, Nat.add_comm]
    rw [hwhole, hbyte, line_placeOf, List.count_append, hcount, hfront, Nat.add_zero]

/-- Whether a diagnostic is about a line, and which part of the line it is to quote: the character
passed over, or what the fault is about. -/
inductive Quotes (l : Line) : Diagnostic → List Char → Prop
  | notice {n : Notice} (hn : n ∈ noticesOf (itemsOf (.ofList l.text))) :
      Quotes l (n.diagnostic.shift l.start) [n.val]
  | fault {f : Fault} (hf : l.fault? = some f)
      (hend : ∀ s, f = .parse ⟨.unexpectedEnd, s⟩ →
        ∃ last, (tokensOf (itemsOf (.ofList l.text))).getLast? = some last ∧
          s = .emptyAt last.span.hi) :
      Quotes l (f.diagnostic.shift l.start) f.quoted

theorem calculated_of_fault? {l : Line} {f : Fault} (h : l.fault? = some f) :
    l.calculated = .error f := by
  rw [fault?] at h
  split at h
  · cases h
  · split at h
    · cases h
      assumption
    · cases h

/-- What is reported of a line quotes it. -/
theorem exists_quotes {l : Line} {d : Diagnostic} (h : d ∈ l.warnings ∨ d ∈ l.complaint?) :
    ∃ (s : Span) (remark : String) (part : List Char),
      d.label = some ⟨s.shift l.start, remark⟩ ∧ l.Quotes d part ∧ s.slice? l.text = some part := by
  rcases h with hwarning | hcomplaint
  · rw [warnings] at hwarning
    split at hwarning
    · cases hwarning
    · obtain ⟨n, hn, rfl⟩ := List.mem_map.mp hwarning
      have hslice := slice?_of_mem_noticesOf hn
      rw [String.toList_ofList] at hslice
      exact ⟨n.span, _, [n.val], rfl, .notice hn, hslice⟩
  · obtain ⟨f, hf, rfl⟩ := Option.map_eq_some_iff.mp hcomplaint
    have herror : Calculation.ofText (.ofList l.text) = .error f := calculated_of_fault? hf
    have hslice := Calculation.slice?_of_error herror
    rw [String.toList_ofList] at hslice
    refine ⟨f.span, _, f.quoted, rfl, .fault hf fun s hs => ?_, hslice⟩
    rw [hs] at herror
    exact Calculation.span_of_unexpectedEnd herror

end Line

/-! ## What is shown while a line is handled -/

namespace Worksheet

theorem of_mem_report {m : Mode} {source src : Source} {d e : Diagnostic}
    (h : .reported src d ∈ m.report source e) : src = source ∧ d = e := by
  rw [Mode.report] at h
  split at h
  · cases h
  · cases List.mem_singleton.mp h
    exact ⟨rfl, rfl⟩

theorem label_of_mem_conclusion {m : Mode} {source src : Source} {d : Diagnostic}
    (h : .reported src d ∈ conclusion m source) : d.label = none := by
  rw [conclusion] at h
  split at h
  · cases h
  · obtain ⟨-, rfl⟩ := of_mem_report h
    rfl

theorem source_of_mem_preface {m : Mode} {source src : Source} {l : Line} {r : Line.Result}
    {d : Diagnostic} (h : .reported src d ∈ preface m source l r) : src = source := by
  rw [preface] at h
  rcases List.mem_append.mp h with hwarning | htrees
  · obtain ⟨n, -, hn⟩ := List.mem_flatMap.mp hwarning
    exact (of_mem_report hn).1
  · split at htrees
    · split at htrees
      · cases List.mem_singleton.mp htrees
      · cases htrees
    · cases htrees

/-- All reports on a line are about the whole worksheet. -/
theorem source_of_mem_handled {m : Mode} {source src : Source} {detailed : Bool} {l : Line}
    {d : Diagnostic} (h : .reported src d ∈ handled m source detailed l) : src = source := by
  rw [handled] at h
  split at h
  · cases h
  · rw [lineOutputs] at h
    rcases List.mem_append.mp h with hpreface | houtcome
    · exact source_of_mem_preface hpreface
    · split at houtcome
      · cases List.mem_singleton.mp houtcome
      · cases houtcome
      · split at houtcome
        · exact (of_mem_report houtcome).1
        · cases houtcome

/-- While a line is handled, only the line is reported on. -/
theorem of_mem_handled {m : Mode} {source src : Source} {detailed : Bool} {l : Line}
    {d : Diagnostic} (h : .reported src d ∈ handled m source detailed l) :
    d ∈ l.warnings ∨ d ∈ l.complaint? := by
  have hmem : d ∈ Output.diagnostics (handled m source detailed l) :=
    List.mem_filterMap.mpr ⟨_, h, rfl⟩
  rw [diagnostics_handled, Mode.admitted] at hmem
  split at hmem
  · cases hmem
  · rcases List.mem_append.mp hmem with hwarning | hcomplaint
    · exact .inl hwarning
    · split at hcomplaint
      · exact .inr (Option.mem_toList.mp hcomplaint)
      · cases hcomplaint

/-- **Labels quote the worksheet.** A worksheet shows what its lines show, in turn, and a
conclusion, which has no label. The lines are the pieces of the text without their line ends; every
report on a line is labelled, and the label lies in the line, begins on the line of the worksheet
that has the number of the piece, and covers, in the whole text, what the report is about. -/
theorem labels_quote_line (m : Mode) (source : Source) :
    let text := source.text.toList
    let lines := Line.allOf text
    let shown (i : Nat) (l : Line) := handled m source (failures (lines.take i) < m.maxErrors) l
    (record m source).value.outputs = (lines.mapIdx shown).flatten ++ conclusion m source ∧
      (∀ src d, .reported src d ∈ conclusion m source → d.label = none) ∧
      lines = (pieces text).mapIdx (fun i piece =>
        ⟨i + 1, byteLength ((pieces text).take i).flatten, withoutLineEnd piece⟩) ∧
      ∀ i l, lines[i]? = some l → ∀ src d, .reported src d ∈ shown i l →
        src = source ∧ ∃ label part, d.label = some label ∧ l.Quotes d part ∧
          label.span.slice? text = some part ∧ l.start ≤ label.span.lo ∧
          label.span.hi ≤ l.start + byteLength l.text ∧
          (placeOf text label.span.lo).line = i + 1 := by
  intro text lines shown
  refine ⟨outputs_record m source, fun _ _ => label_of_mem_conclusion,
    Line.allOf_eq_mapIdx text, ?_⟩
  intro i l hl src d h
  obtain ⟨s, remark, part, hlabel, hquotes, hslice⟩ := Line.exists_quotes (of_mem_handled h)
  obtain ⟨hwhole, hhi, hline⟩ := Line.slice?_shift_start hl hslice
  exact ⟨source_of_mem_handled h, _, part, hlabel, hquotes, hwhole, Nat.le_add_left _ _, hhi, hline⟩

/-- Behind a wide character, a line end of two bytes and a blank line, the third line ends where a
number is due. -/
theorem labels_quote_line_at_end :
    let source : Source := ⟨"<expr>", "é1\r\n\n2 ×+\r\n"⟩
    let l : Line := ⟨3, 6, "2 ×+".toList⟩
    let d : Diagnostic :=
      ⟨.error, "expected a number or '(' but found end of input", some ⟨.emptyAt 11, ""⟩⟩
    (Line.allOf source.text.toList)[2]? = some l ∧
      .reported source d ∈ (record {} source).value.outputs ∧
      (∃ part, l.Quotes d part ∧ (Span.emptyAt 11).slice? source.text.toList = some part) ∧
      (placeOf source.text.toList 11).line = 3 := by
  intro source l d
  have hl : (Line.allOf source.text.toList)[2]? = some l := by decide +kernel
  have hmem : .reported source d ∈ (record {} source).value.outputs := by decide +kernel
  obtain ⟨-, -, -, hlabels⟩ := labels_quote_line {} source
  obtain ⟨-, label, part, hlabel, hquotes, hslice, -, -, hline⟩ :=
    hlabels 2 l hl source d (by decide +kernel)
  cases hlabel
  exact ⟨hl, hmem, ⟨part, hquotes, hslice⟩, hline⟩

end Worksheet

end Calculator
