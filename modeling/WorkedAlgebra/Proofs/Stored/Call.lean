import WorkedAlgebra.Proofs.Method.Undefined
import WorkedAlgebra.Proofs.Stored.Arithmetic
import WorkedAlgebra.Proofs.Stored.Elimination
import WorkedAlgebra.Stored.Call

/-!
# When calls fail

* **`Stored.Call.fails_iff_undefined`**: on well-formed matrices, a call fails exactly when its
  operation is undefined, no check fails, and all matrices of the solution are well-formed.
-/

namespace WorkedAlgebra

/-! ## Well-formed solutions -/

def StoredValue.WellFormed : StoredValue → Prop
  | scalar _ => True
  | matrix a => a.WellFormed

/-- The matrices in the inputs, the answer and the steps of a solution are well-formed. -/
structure StoredSolution.WellFormed (s : StoredSolution) : Prop where
  inputs : ∀ v ∈ s.inputs, v.WellFormed
  answer : s.answer.WellFormed
  steps : ∀ step ∈ s.steps, step.value.WellFormed

theorem Value.wellFormed_stored (v : Value) : v.stored.WellFormed := by
  cases v with
  | scalar s => trivial
  | matrix m => exact m.wellFormed_stored

theorem Solution.wellFormed_stored (s : Solution) : s.stored.WellFormed where
  inputs := by simpa [stored] using fun v _ => v.wellFormed_stored
  answer := s.answer.wellFormed_stored
  steps := by simpa [stored, Step.stored] using fun step _ => step.value.wellFormed_stored

theorem storedResult_eq_ok {r : Except MethodFault Solution} {s : StoredSolution}
    (h : storedResult r = .ok s) : s.WellFormed := by
  obtain ⟨t, -, rfl⟩ := exists_of_storedResult h
  exact t.wellFormed_stored

theorem storedResult_eq_error_iff {r : Except MethodFault Solution} {e : StoredFault} :
    storedResult r = .error e ↔ ∃ fault, e = .undefined fault ∧ r = .error fault := by
  cases r with
  | error fault => simp [storedResult, eq_comm]
  | ok t => simp [storedResult]

/-! ## Calls -/

namespace Stored.Call

def WellFormed (call : Call) : Prop :=
  ∀ a ∈ call.matrices, a.WellFormed

/-- Some matrix inverts a stored matrix on the right. -/
def HasInverse (a : StoredMatrix) : Prop :=
  ∃ h : a.WellFormed, (a.toMatrix h).HasInverse

theorem hasInverse_stored (m : RatMatrix) : HasInverse m.stored ↔ m.HasInverse := by
  constructor
  · rintro ⟨h, hm⟩
    rwa [StoredMatrix.toMatrix_stored] at hm
  · intro hm
    refine ⟨m.wellFormed_stored, ?_⟩
    rwa [StoredMatrix.toMatrix_stored]

/-- **When an operation is undefined on its operands**, and what it then reports. -/
def Undefined : Call → MethodFault → Prop
  | scalarPlus .., _ | scalarMinus .., _ | scalarMultiply .., _ => False
  | scalarDivide _ b, fault => b.value = 0 ∧ fault = .divisionByZero
  | plus a b, fault =>
    ¬ (a.rows = b.rows ∧ a.cols = b.cols) ∧
      fault = .dimensionMismatch "add" a.rows a.cols b.rows b.cols
  | minus a b, fault =>
    ¬ (a.rows = b.rows ∧ a.cols = b.cols) ∧
      fault = .dimensionMismatch "subtract" a.rows a.cols b.rows b.cols
  | multiply a b, fault =>
    a.cols ≠ b.rows ∧ fault = .dimensionMismatch "multiply" a.rows a.cols b.rows b.cols
  | scale .., _ | transpose _, _ | rowReduce _, _ | rank _, _ | columnSpace _, _ => False
  | inverse a, fault =>
    a.rows ≠ a.cols ∧ fault = .notSquare "inverse" a.rows a.cols ∨
      a.rows = a.cols ∧ ¬ HasInverse a ∧ fault = .singular
  | determinant a, fault =>
    a.rows ≠ a.cols ∧ fault = .notSquare "determinant" a.rows a.cols

section

variable {call : Call}

theorem ok_eq_error_iff_false (s : Solution) (fault : MethodFault) :
    (Except.ok s : Except MethodFault Solution) = .error fault ↔ False := by
  simp

theorem run_eq_storedResult (h : call.WellFormed) :
    ∃ r, call.run = storedResult r ∧ ∀ fault, r = .error fault ↔ call.Undefined fault := by
  have hstored : ∀ a ∈ call.matrices, ∃ m : RatMatrix, m.stored = a :=
    fun a ha => (h a ha).exists_stored
  cases call with
  | scalarPlus a b => exact ⟨_, scalarPlus_eq a b, ok_eq_error_iff_false _⟩
  | scalarMinus a b => exact ⟨_, scalarMinus_eq a b, ok_eq_error_iff_false _⟩
  | scalarMultiply a b => exact ⟨_, scalarMultiply_eq a b, ok_eq_error_iff_false _⟩
  | scalarDivide a b =>
    exact ⟨_, scalarDivide_eq a b, fun _ => ScalarArithmetic.divide_eq_error_iff a b⟩
  | plus a b =>
    obtain ⟨m, rfl⟩ := hstored a (by simp [matrices])
    obtain ⟨n, rfl⟩ := hstored b (by simp [matrices])
    exact ⟨_, plus_stored m n, fun _ => MatrixArithmetic.entrywise_eq_error_iff m n _ _ _⟩
  | minus a b =>
    obtain ⟨m, rfl⟩ := hstored a (by simp [matrices])
    obtain ⟨n, rfl⟩ := hstored b (by simp [matrices])
    exact ⟨_, minus_stored m n, fun _ => MatrixArithmetic.entrywise_eq_error_iff m n _ _ _⟩
  | multiply a b =>
    obtain ⟨m, rfl⟩ := hstored a (by simp [matrices])
    obtain ⟨n, rfl⟩ := hstored b (by simp [matrices])
    exact ⟨_, multiply_stored m n, fun _ => MatrixArithmetic.multiply_eq_error_iff m n⟩
  | scale side s a =>
    obtain ⟨m, rfl⟩ := hstored a (by simp [matrices])
    exact ⟨_, scale_stored side s m, ok_eq_error_iff_false _⟩
  | transpose a =>
    obtain ⟨m, rfl⟩ := hstored a (by simp [matrices])
    exact ⟨_, transpose_stored m, ok_eq_error_iff_false _⟩
  | rowReduce a =>
    obtain ⟨m, rfl⟩ := hstored a (by simp [matrices])
    exact ⟨_, rowReduce_stored m, ok_eq_error_iff_false _⟩
  | rank a =>
    obtain ⟨m, rfl⟩ := hstored a (by simp [matrices])
    exact ⟨_, rank_stored m, ok_eq_error_iff_false _⟩
  | columnSpace a =>
    obtain ⟨m, rfl⟩ := hstored a (by simp [matrices])
    exact ⟨_, columnSpace_stored m, ok_eq_error_iff_false _⟩
  | inverse a =>
    obtain ⟨m, rfl⟩ := hstored a (by simp [matrices])
    refine ⟨_, inverse_stored m, fun fault => ?_⟩
    rw [Elimination.outcome_inverse_eq_error_iff, Undefined, hasInverse_stored]
    rfl
  | determinant a =>
    obtain ⟨m, rfl⟩ := hstored a (by simp [matrices])
    exact ⟨_, determinant_stored m, fun _ => Elimination.outcome_determinant_eq_error_iff m⟩

/-- **When calls fail.** On well-formed matrices, a call fails exactly when its operation is
undefined on its operands, and no check in storage ever does. -/
theorem fails_iff_undefined (call : Call) (h : call.WellFormed) :
    (∀ fault, call.run = .error (.undefined fault) ↔ call.Undefined fault) ∧
      (∀ e, call.run = .error e → ∃ fault, e = .undefined fault) ∧
      ∀ s, call.run = .ok s → s.WellFormed := by
  obtain ⟨r, hrun, hr⟩ := run_eq_storedResult h
  rw [hrun]
  refine ⟨fun fault => ?_, fun e he => ?_, fun s hs => storedResult_eq_ok hs⟩
  · rw [storedResult_eq_error_iff, ← hr]
    simp
  · obtain ⟨fault, he, _⟩ := storedResult_eq_error_iff.mp he
    exact ⟨fault, he⟩

/-- A matrix of two rows and three columns is reduced, but not multiplied by itself. -/
theorem fails_iff_undefined_of_wide :
    let a : StoredMatrix := ⟨2, 3, [0, 1, 2, 3, 4, 5], .fraction⟩
    (Call.rowReduce a).WellFormed ∧ (∃ s, (Call.rowReduce a).run = .ok s ∧ s.WellFormed) ∧
      (Call.multiply a a).WellFormed ∧ (Call.multiply a a).run =
        .error (.undefined (.dimensionMismatch "multiply" 2 3 2 3)) := by
  intro a
  have ha : a.WellFormed := by decide
  have hreduce : (Call.rowReduce a).WellFormed := by simpa [WellFormed, matrices] using ha
  have hmultiply : (Call.multiply a a).WellFormed := by simpa [WellFormed, matrices] using ha
  obtain ⟨hiff, hfault, hok⟩ := fails_iff_undefined (.rowReduce a) hreduce
  refine ⟨hreduce, ?_, hmultiply, ?_⟩
  · cases hs : (Call.rowReduce a).run with
    | ok s => exact ⟨s, rfl, hok s hs⟩
    | error e =>
      obtain ⟨fault, rfl⟩ := hfault e hs
      exact absurd ((hiff fault).mp hs) id
  · exact ((fails_iff_undefined (.multiply a a) hmultiply).1 _).mpr ⟨by decide, rfl⟩

end
end Stored.Call
end WorkedAlgebra
