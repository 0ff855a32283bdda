import SpikingNeuralP.Failure
import SpikingNeuralP.Proofs.Vector.Traversal

/-!
# Measures

Vectors are measured one after the other, each against the length asked of it, and the first that
does not fit is the one reported.
-/

namespace SpikingNeuralP

/-- A vector under its name, with the length asked of it and the length it has. -/
structure Measure where
  vector : String
  expected : Nat
  actual : Nat
  deriving DecidableEq, Repr

namespace Measure

def misfits (measure : Measure) : Bool :=
  measure.actual != measure.expected

def check (measure : Measure) : Except StepError Unit :=
  checkLength measure.vector measure.expected measure.actual

variable {measure : Measure} {measures : List Measure} {cause : StepError}

theorem find?_misfits_cons_of_eq (hfits : measure.actual = measure.expected) :
    (measure :: measures).find? misfits = measures.find? misfits :=
  List.find?_cons_of_neg (by simpa [misfits] using hfits)

theorem find?_misfits_cons_of_ne (hmisfits : measure.actual ≠ measure.expected) :
    (measure :: measures).find? misfits = some measure :=
  List.find?_cons_of_pos (by simpa [misfits] using hmisfits)

theorem forall_fits_iff :
    (∀ measure ∈ measures, measure.misfits = false) ↔
      ∀ measure, measures.find? misfits ≠ some measure := by
  rw [← Option.eq_none_iff_forall_ne_some, List.find?_eq_none]
  simp

theorem forM_check_eq :
    measures.forM check =
      match measures.find? misfits with
      | some measure => .error (.lengthMismatch measure.vector measure.expected measure.actual)
      | none => .ok () := by
  have hvisit : ∀ measure ∈ measures, measure.check =
      if measure.misfits then
        .error (.lengthMismatch measure.vector measure.expected measure.actual)
      else .ok () := by
    intro measure _
    by_cases hlength : measure.actual = measure.expected
    · simp [check, checkLength, misfits, hlength]
    · simp [check, checkLength, misfits, hlength]
  rw [forM_eq_match_find? hvisit]
  cases measures.find? misfits <;> rfl

theorem forM_check_eq_error_iff :
    measures.forM check = .error cause ↔
      ∃ measure, measures.find? misfits = some measure ∧
        cause = .lengthMismatch measure.vector measure.expected measure.actual := by
  rw [forM_check_eq]
  cases measures.find? misfits with
  | none => simp
  | some measure => simp [eq_comm]

theorem forM_check_eq_ok_iff :
    measures.forM check = .ok () ↔ ∀ measure ∈ measures, measure.misfits = false := by
  rw [forM_check_eq, forall_fits_iff, ← Option.eq_none_iff_forall_ne_some]
  cases measures.find? misfits with
  | none => simp
  | some measure => simp

end Measure

end SpikingNeuralP
