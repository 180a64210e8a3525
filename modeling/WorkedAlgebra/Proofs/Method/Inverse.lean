import WorkedAlgebra.Proofs.Method.MatrixArithmetic
import WorkedAlgebra.Proofs.Method.RowReduction

/-!
# The inverse

The operations of an elimination multiply both halves of a grid beside the identity by the same
invertible matrix, so the right half at the end is that matrix
(**`Elimination.mul_eq_one_of_full`**, **`Elimination.mul_ne_one_of_short`**).
-/

namespace WorkedAlgebra.Elimination

/-- The elimination of a square grid beside the identity, with pivots in its own columns. -/
def inverseReduction {n : ℕ} (g : Grid n n) : Reduction n (n + n) :=
  reduce ((List.finRange n).map (Fin.castAdd n)) (g.beside (.identity n))

section

variable {n : ℕ} (g : Grid n n)

theorem swept_inverseReduction : (inverseReduction g).Swept n := by
  refine Reduction.swept_reduce ?_ _
  rw [List.map_map]
  exact List.map_coe_finRange_eq_range

theorem tallied_inverseReduction :
    Reduction.Tallied (g.beside (.identity n)) (inverseReduction g) :=
  Reduction.tallied_reduce _ _

theorem get_inverseReduction_left (i j : Fin n) :
    (inverseReduction g).grid.get i (Fin.castAdd n j) =
      (RowOp.multiplier (inverseReduction g).ops * g.toMatrix) i j := by
  rw [← Grid.toMatrix_apply, (tallied_inverseReduction g).toMatrix_eq, Matrix.mul_apply,
    Matrix.mul_apply]
  exact Finset.sum_congr rfl fun l _ => by rw [Grid.toMatrix_beside_left]

theorem get_inverseReduction_right (i j : Fin n) :
    (inverseReduction g).grid.get i (Fin.natAdd n j) =
      RowOp.multiplier (inverseReduction g).ops i j := by
  rw [← Grid.toMatrix_apply, (tallied_inverseReduction g).toMatrix_eq, Matrix.mul_apply]
  calc
    ∑ l, RowOp.multiplier (inverseReduction g).ops i l *
          (g.beside (.identity n)).toMatrix l (Fin.natAdd n j)
      = ∑ l, RowOp.multiplier (inverseReduction g).ops i l * (1 : Matrix _ _ ℚ) l j :=
        Finset.sum_congr rfl fun l _ => by
          rw [Grid.toMatrix_beside_right, Grid.toMatrix_identity]
    _ = RowOp.multiplier (inverseReduction g).ops i j := by
        rw [← Matrix.mul_apply, Matrix.mul_one]

theorem mul_eq_one_of_full (full : (inverseReduction g).pivots.length = n) :
    RowOp.multiplier (inverseReduction g).ops * g.toMatrix = 1 := by
  ext i j
  rw [← get_inverseReduction_left, (swept_inverseReduction g).get_of_full full i j.isLt,
    Matrix.one_apply]
  exact if_congr Fin.ext_iff.symm rfl rfl

theorem mul_ne_one_of_short (short : (inverseReduction g).pivots.length < n)
    (B : Matrix (Fin n) (Fin n) ℚ) : g.toMatrix * B ≠ 1 := by
  intro hB
  obtain ⟨i, hi⟩ := (swept_inverseReduction g).exists_row_eq_zero short
  have hunit := (tallied_inverseReduction g).isUnit_multiplier
  -- a row of zeros in the left half is one in the invertible matrix that led there
  have hrow : ∀ j, (RowOp.multiplier (inverseReduction g).ops * g.toMatrix) i j = 0 := fun j => by
    rw [← get_inverseReduction_left]
    exact hi _ j.isLt
  have hzero : ∀ j, RowOp.multiplier (inverseReduction g).ops i j = 0 := fun j => by
    rw [← Matrix.mul_one (RowOp.multiplier _), ← hB, ← Matrix.mul_assoc, Matrix.mul_apply]
    exact Finset.sum_eq_zero fun l _ => by rw [hrow, zero_mul]
  rw [Matrix.isUnit_iff_isUnit_det, Matrix.det_eq_zero_of_row_eq_zero i hzero] at hunit
  exact not_isUnit_zero hunit

end

/-! ## The answer -/

section

variable {n : ℕ} {g : Grid n n} (display : DisplayMode)

theorem outcome_inverse_of_short (hr hc : 0 < n) (short : (inverseReduction g).pivots.length < n) :
    (inverse ⟨n, n, g, display, hr, hc⟩).outcome = .error .singular := by
  rw [inverse, if_pos (RatMatrix.isSquare_iff.mpr rfl),
    Traced.outcome_bind_of_ok (outcome_reduced _ _)]
  exact congrArg Traced.outcome (if_pos short)

theorem outcome_inverse_of_full (hr hc : 0 < n) (full : (inverseReduction g).pivots.length = n) :
    ∃ x : Grid n n, x.toMatrix = RowOp.multiplier (inverseReduction g).ops ∧
      ∃ steps, (inverse ⟨n, n, g, display, hr, hc⟩).outcome =
        .ok (.record .inverse [.matrix ⟨n, n, g, display, hr, hc⟩]
          (.matrix ⟨n, n, x, .resolve [display], hr, hr⟩) steps) := by
  refine ⟨.ofFn fun i j => (inverseReduction g).grid.get i (Fin.natAdd n j), ?_, ?_⟩
  · ext i j
    rw [Grid.toMatrix_apply, Grid.get_ofFn, get_inverseReduction_right]
  · have hnot : ¬ (inverseReduction g).pivots.length < n := by omega
    rw [inverse, if_pos (RatMatrix.isSquare_iff.mpr rfl),
      Traced.outcome_bind_of_ok (outcome_reduced _ _)]
    exact ⟨_, congrArg Traced.outcome (if_neg hnot)⟩

theorem outcome_inverse_cases (g : Grid n n) (hr hc : 0 < n) :
    ((inverse ⟨n, n, g, display, hr, hc⟩).outcome = .error .singular ∧
        ∀ B : Matrix (Fin n) (Fin n) ℚ, g.toMatrix * B ≠ 1) ∨
      ∃ x : Grid n n, x.toMatrix * g.toMatrix = 1 ∧
        ∃ steps, (inverse ⟨n, n, g, display, hr, hc⟩).outcome =
          .ok (.record .inverse [.matrix ⟨n, n, g, display, hr, hc⟩]
            (.matrix ⟨n, n, x, .resolve [display], hr, hr⟩) steps) := by
  by_cases short : (inverseReduction g).pivots.length < n
  · exact .inl ⟨outcome_inverse_of_short display hr hc short, mul_ne_one_of_short g short⟩
  · have full : (inverseReduction g).pivots.length = n :=
      le_antisymm (swept_inverseReduction g).height (Nat.le_of_not_lt short)
    obtain ⟨x, hx, h⟩ := outcome_inverse_of_full display hr hc full
    refine .inr ⟨x, ?_, h⟩
    rw [hx, mul_eq_one_of_full g full]

end

/-- **The inverse.** A square matrix has an answer exactly if it has an inverse; the answer is the
inverse on both sides, and the only fault is that the matrix is singular. -/
theorem inverse_isTwoSided (m : RatMatrix) (square : m.rows = m.cols) :
    ((∃ s, (inverse m).outcome = .ok s) ↔
        ∃ B : Matrix (Fin m.cols) (Fin m.rows) ℚ, m.grid.toMatrix * B = 1) ∧
      (∀ s, (inverse m).outcome = .ok s → ∃ x, s.answer = .matrix x ∧
        MatrixArithmetic.AnswersIdentity m.rows (MatrixArithmetic.multiply m x) ∧
        MatrixArithmetic.AnswersIdentity m.rows (MatrixArithmetic.multiply x m)) ∧
      ∀ e, (inverse m).outcome = .error e → e = .singular := by
  obtain ⟨n, k, g, display, hr, hc⟩ := m
  have hk : n = k := square
  subst hk
  rcases outcome_inverse_cases display g hr hc with ⟨h, hnone⟩ | ⟨x, hleft, steps, h⟩
  · rw [h]
    refine ⟨iff_of_false ?_ ?_, ?_, ?_⟩
    · rintro ⟨s, hs⟩
      cases hs
    · rintro ⟨B, hB⟩
      exact hnone B hB
    · intro s hs
      cases hs
    · rintro e ⟨⟩
      rfl
  · have hright : g.toMatrix * x.toMatrix = 1 := mul_eq_one_comm.mp hleft
    rw [h]
    refine ⟨iff_of_true ⟨_, rfl⟩ ⟨x.toMatrix, hright⟩, ?_, ?_⟩
    · rintro _ ⟨⟩
      exact ⟨_, rfl, MatrixArithmetic.answersIdentity_multiply _ _ hright hr hc hr hr,
        MatrixArithmetic.answersIdentity_multiply _ _ hleft hr hr hr hc⟩
    · intro e he
      cases he

/-- A matrix that needs an exchange of rows has an inverse. -/
theorem inverse_of_exchange :
    let m : RatMatrix := ⟨2, 2, .ofFn ![![0, 1], ![1, 3]], .fraction, by decide, by decide⟩
    m.rows = m.cols ∧ ∃ s x, (inverse m).outcome = .ok s ∧ s.answer = .matrix x ∧
      MatrixArithmetic.AnswersIdentity 2 (MatrixArithmetic.multiply m x) := by
  intro m
  have square : m.rows = m.cols := rfl
  obtain ⟨hiff, hok, -⟩ := inverse_isTwoSided m square
  obtain ⟨s, hs⟩ := hiff.mpr ⟨!![-3, 1; 1, 0], by
    ext i j
    rw [Matrix.mul_apply, Fin.sum_univ_two]
    fin_cases i <;> fin_cases j <;> simp [m]⟩
  obtain ⟨x, hx, hmul, -⟩ := hok s hs
  exact ⟨square, s, x, hs, hx, hmul⟩

end WorkedAlgebra.Elimination
