import WorkedAlgebra.Method.ScalarArithmetic
import WorkedAlgebra.Proofs.Method.Inverse

/-!
# When operations are undefined

For every operation that can fail, the faults that it reports and when it reports them.
-/

namespace WorkedAlgebra

variable {fault : MethodFault}

theorem ScalarArithmetic.divide_eq_error_iff (a b : Scalar) :
    divide a b = .error fault ↔ b.value = 0 ∧ fault = .divisionByZero := by
  unfold divide
  by_cases h : b.value = 0
  · simp [h, eq_comm]
  · simp [h]

namespace MatrixArithmetic

variable (a b : RatMatrix)

theorem entrywise_eq_error_iff (op : Operator) (verb : String) (f : ℚ → ℚ → ℚ) :
    entrywise op verb f a b = .error fault ↔
      ¬ (a.rows = b.rows ∧ a.cols = b.cols) ∧ fault = mismatch verb a b := by
  unfold entrywise
  by_cases h : a.rows = b.rows ∧ a.cols = b.cols
  · rw [dif_pos h]
    simp [h]
  · rw [dif_neg h]
    simp [h, eq_comm]

theorem multiply_eq_error_iff :
    multiply a b = .error fault ↔ a.cols ≠ b.rows ∧ fault = mismatch "multiply" a b := by
  unfold multiply
  by_cases h : a.cols = b.rows
  · rw [dif_pos h]
    simp [h]
  · rw [dif_neg h]
    simp [h, eq_comm]

end MatrixArithmetic

/-- Some matrix inverts a matrix on the right. -/
def RatMatrix.HasInverse (m : RatMatrix) : Prop :=
  ∃ B : Matrix (Fin m.cols) (Fin m.rows) ℚ, m.grid.toMatrix * B = 1

namespace Elimination

variable (m : RatMatrix)

theorem outcome_determinant_eq_error_iff :
    (determinant m).outcome = .error fault ↔
      m.rows ≠ m.cols ∧ fault = notSquare "determinant" m := by
  unfold determinant
  by_cases h : m.isSquare
  · rw [if_pos h, Traced.outcome_bind_of_ok (outcome_reduced _ _)]
    simp [RatMatrix.isSquare_iff.mp h]
  · have hne : m.rows ≠ m.cols := fun h' => h (RatMatrix.isSquare_iff.mpr h')
    rw [if_neg h]
    simp [hne, eq_comm]

/-- **An inverse is missing** if the matrix is not square, or if no matrix inverts it. -/
theorem outcome_inverse_eq_error_iff :
    (inverse m).outcome = .error fault ↔
      m.rows ≠ m.cols ∧ fault = notSquare "inverse" m ∨
        m.rows = m.cols ∧ ¬ m.HasInverse ∧ fault = .singular := by
  obtain ⟨n, k, g, display, hr, hc⟩ := m
  by_cases h : n = k
  · subst h
    rcases outcome_inverse_cases display g hr hc with ⟨ho, hnone⟩ | ⟨x, hleft, steps, ho⟩
    · have hno : ¬ RatMatrix.HasInverse ⟨n, n, g, display, hr, hc⟩ := fun ⟨B, hB⟩ => hnone B hB
      rw [ho]
      simp [eq_comm, hno]
    · -- the answer is an inverse on the right as well
      have hright : g.toMatrix * x.toMatrix = 1 := mul_eq_one_comm.mp hleft
      rw [ho]
      simp only [reduceCtorEq, false_iff]
      rintro (⟨hne, -⟩ | ⟨-, hnone, -⟩)
      · exact hne rfl
      · exact hnone ⟨x.toMatrix, hright⟩
  · unfold inverse
    rw [if_neg fun h' => h (RatMatrix.isSquare_iff.mp h')]
    simp [h, eq_comm]

end Elimination
end WorkedAlgebra
