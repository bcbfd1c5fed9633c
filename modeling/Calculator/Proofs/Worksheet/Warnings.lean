import Calculator.Proofs.Token.Joining
import Calculator.Proofs.Worksheet.Labels
import Mathlib.Data.List.Basic

/-!
# Warnings of a worksheet and notices of its text

A worksheet is read line by line, but no item goes over the end of a line, and line ends are white
space: the items of the lines, each moved to where its line begins, tile the whole text
(`Line.tiled_ofPieces`) and are therefore the items of the whole text. So the warnings of a
worksheet are the notices of its text, but for those on blank lines, which are not read
(`Worksheet.warnings_record`).
-/

namespace Calculator

/-- Whether the line on which a notice stands is blank. -/
def Notice.onBlankLine (text : List Char) (n : Notice) : Bool :=
  (lineAt text (placeOf text n.span.lo).line).all isBlank

/-! ## The items of the lines -/

/-- A text is one without its line end, and a line end, which is white space. -/
theorem exists_lineEnd (cs : List Char) :
    ∃ lineEnd, cs = withoutLineEnd cs ++ lineEnd ∧ Blank lineEnd := by
  refine ⟨cs.rtakeWhile isLineEnd, List.rdropWhile_append_rtakeWhile.symm, fun c hc => ?_⟩
  have hend := List.mem_rtakeWhile_imp hc
  simp only [isLineEnd, Bool.or_eq_true, beq_iff_eq] at hend
  rcases hend with rfl | rfl <;> rfl

theorem isNumberChar_of_isSpace {c : Char} (h : isSpace c = true) : isNumberChar c = false := by
  simp only [isSpace, Bool.or_eq_true, beq_iff_eq] at h
  rcases h with (((rfl | rfl) | rfl) | rfl) | rfl <;> rfl

namespace Line

/-- The items of a line, at their places in the worksheet. -/
def items (l : Line) : List Item := (itemsOf (.ofList l.text)).map (Item.shift l.start)

/-- The items of a line tile the line together with its line end. -/
theorem tiled_items (number start : Nat) (piece : List Char) :
    Tiled start piece (items ⟨number, start, withoutLineEnd piece⟩) := by
  obtain ⟨lineEnd, hpiece, hblank⟩ := exists_lineEnd piece
  have hline : Tiled start (withoutLineEnd piece)
      (items ⟨number, start, withoutLineEnd piece⟩) := by
    have htiled := (tiled_itemsOf (.ofList (withoutLineEnd piece))).shift start
    rwa [Nat.zero_add, String.toList_ofList] at htiled
  have hwhole := hline.append (.blank hblank) fun _ _ _ _ d hd =>
    isNumberChar_of_isSpace (hblank d (List.mem_of_head? hd))
  rwa [← hpiece, List.append_nil] at hwhole

/-- **The items of the lines tile the text** that the lines are cut out of. -/
theorem tiled_ofPieces {ps : List (List Char)} (hps : Pieced ps) (number start : Nat) :
    Tiled start ps.flatten ((ofPieces number start ps).flatMap items) := by
  induction hps generalizing number start with
  | nil => exact .blank (List.forall_mem_nil _)
  | @rest line hline hne =>
      rw [List.flatten_singleton, ofPieces, ofPieces, List.flatMap_singleton]
      exact tiled_items number start line
  | @ended line ps hline hps ih =>
      rw [List.flatten_cons, ofPieces, List.flatMap_cons]
      have hfirst := tiled_items number start (line ++ ['\n'])
      refine hfirst.append (ih _ _) fun literal s ht hend => ?_
      -- a number would have to be written with the line feed
      obtain ⟨c, hc, hnumber⟩ := hfirst.getLast?_of_number ht hend
      rw [List.getLast?_concat] at hc
      cases hc
      cases hnumber

/-- The items of a text are those of its lines, blank lines included. -/
theorem itemsOf_eq_flatMap (text : String) :
    itemsOf text = (allOf text.toList).flatMap items := by
  have htiled := tiled_ofPieces (pieced_pieces text.toList) 1 0
  rw [flatten_pieces] at htiled
  exact (tiled_itemsOf text).unique htiled

theorem noticesOf_items (l : Line) :
    noticesOf l.items = (noticesOf (itemsOf (.ofList l.text))).map (·.shift l.start) :=
  noticesOf_map_shift ..

/-! ## The notices of the lines -/

theorem lineAt_of_getElem? {text : List Char} {i : Nat} {l : Line}
    (h : (allOf text)[i]? = some l) : lineAt text (i + 1) = l.text := by
  rw [allOf_eq_mapIdx, List.getElem?_mapIdx] at h
  obtain ⟨piece, hpiece, rfl⟩ := Option.map_eq_some_iff.mp h
  rw [lineAt, Nat.add_sub_cancel, hpiece]
  rfl

/-- The notices of a line stand on that line of the text. -/
theorem onBlankLine_of_mem {text : List Char} {l : Line} (hl : l ∈ allOf text) {n : Notice}
    (hn : n ∈ noticesOf l.items) : n.onBlankLine text = l.isVoid := by
  obtain ⟨i, hi⟩ := List.mem_iff_getElem?.mp hl
  rw [noticesOf_items] at hn
  obtain ⟨m, hm, rfl⟩ := List.mem_map.mp hn
  have hslice := slice?_of_mem_noticesOf hm
  rw [String.toList_ofList] at hslice
  obtain ⟨-, -, hline⟩ := slice?_shift_start hi hslice
  rw [Notice.onBlankLine, Located.shift_span, hline, lineAt_of_getElem? hi, isVoid]

/-- The warnings about a line are its notices, unless it is blank. -/
theorem warnings_eq_map {text : List Char} {l : Line} (hl : l ∈ allOf text) :
    l.warnings =
      ((noticesOf l.items).filter fun n => !n.onBlankLine text).map Notice.diagnostic := by
  have hblank : ∀ n ∈ noticesOf l.items, n.onBlankLine text = l.isVoid :=
    fun n => onBlankLine_of_mem hl
  rw [warnings]
  split
  · rename_i hvoid
    rw [List.filter_eq_nil_iff.mpr fun n hn => by rw [hblank n hn, hvoid]; decide]
    rfl
  · rename_i hvoid
    rw [List.filter_eq_self.mpr fun n hn => by rw [hblank n hn]; simpa using hvoid, noticesOf_items,
      List.map_map]
    rfl

end Line

namespace Worksheet

/-- The warnings among the diagnostics of a worksheet are the warnings of its lines. -/
theorem filter_warning_diagnostics (m : Mode) (hloud : m.quiet = false) (source : Source) :
    (Output.diagnostics (record m source).value.outputs).filter (·.severity = .warning) =
      (Line.allOf source.text.toList).flatMap Line.warnings := by
  have hadmitted (ds : List Diagnostic) : m.admitted ds = ds := by simp [Mode.admitted, hloud]
  rw [diagnostics_outputs, hadmitted, List.filter_append, filter_warning_details]
  -- the conclusion is an error
  split <;> exact List.append_nil _

/-- **The warnings of a worksheet are the notices of its text.** A worksheet that is not quiet
warns, in order and at their places, about the characters that are passed over when its text is read
as a whole, except those on lines that are blank. -/
theorem warnings_record (m : Mode) (hloud : m.quiet = false) (source : Source) :
    (Output.diagnostics (record m source).value.outputs).filter (·.severity = .warning) =
      ((noticesOf (itemsOf source.text)).filter
        fun n => !n.onBlankLine source.text.toList).map Notice.diagnostic := by
  have hnotices : noticesOf (itemsOf source.text) =
      (Line.allOf source.text.toList).flatMap fun l => noticesOf l.items := by
    rw [Line.itemsOf_eq_flatMap]
    exact List.filterMap_flatMap
  rw [filter_warning_diagnostics m hloud, hnotices, List.filter_flatMap, List.map_flatMap]
  exact List.flatMap_congr fun l hl => Line.warnings_eq_map hl

/-- A no-break space is passed over behind a number, and not told of on a line of its own. -/
theorem warnings_record_no_break_space :
    let source : Source := ⟨"<expr>", "1\u00a0\r\n\u00a0\n2×3"⟩
    let warnings (m : Mode) :=
      (Output.diagnostics (record m source).value.outputs).filter (·.severity = .warning)
    (noticesOf (itemsOf source.text)).map (·.span.lo) = [1, 5, 9] ∧
      (warnings { maxErrors := 0 }).map Diagnostic.label =
        [some ⟨.between 1 3, "ignored"⟩, some ⟨.between 9 11, "ignored"⟩] := by
  intro source warnings
  refine ⟨by decide +kernel, ?_⟩
  refine (congrArg _ (warnings_record { maxErrors := 0 } rfl source)).trans ?_
  decide +kernel

end Worksheet

end Calculator
