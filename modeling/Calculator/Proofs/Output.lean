import Calculator.Output
import Mathlib.Data.String.Lemmas

/-!
# What outputs amount to

Outputs are read in two ways: as the text that is written to standard output, and as the diagnostics
that are reported. Both go through outputs piece by piece.
-/

namespace Calculator.Output

/-- What outputs write to standard output. -/
def written (os : List Output) : String := String.join (os.map standardOutput)

/-- The diagnostic that an output is. -/
def diagnostic? : Output → Option Diagnostic
  | reported _ d => some d
  | _ => none

/-- The diagnostics among outputs, in order. -/
def diagnostics (os : List Output) : List Diagnostic := os.filterMap diagnostic?

@[simp] theorem written_nil : written [] = "" := rfl

@[simp] theorem written_printed (text : String) : written [printed text] = text := by
  simp [written, standardOutput]

theorem written_append (os ps : List Output) : written (os ++ ps) = written os ++ written ps := by
  rw [written, List.map_append, String.join_append]
  rfl

theorem diagnostics_append (os ps : List Output) :
    diagnostics (os ++ ps) = diagnostics os ++ diagnostics ps := List.filterMap_append

theorem diagnostics_flatten (oss : List (List Output)) :
    diagnostics oss.flatten = (oss.map diagnostics).flatten := List.filterMap_flatten

end Calculator.Output
