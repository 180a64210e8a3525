import Mathlib.LinearAlgebra.Matrix.Determinant.Basic
import WorkedAlgebra.Proofs.Method.RowReduction

/-!
# The determinant

The operations of an elimination multiply the determinant by a number that the pivots and the
exchanges make up for, and the grid that they lead to is the identity or has a row of zeros
(**`Elimination.det_of_full`**, **`Elimination.det_of_short`**).
-/

namespace WorkedAlgebra.Elimination

theorem signedProduct_eq (swaps : ℕ) (pivots : List ℚ) :
    signedProduct swaps pivots = (-1) ^ swaps * pivots.prod := by
  rw [signedProduct, ← List.prod_eq_foldl]
  by_cases h : swaps % 2 = 1
  · rw [if_pos h, (Nat.odd_iff.mpr h).neg_one_pow, neg_one_mul]
  · rw [if_neg h, (Nat.not_odd_iff_even.mp fun h' => h (Nat.odd_iff.mp h')).neg_one_pow, one_mul]

section

variable {n : ℕ} (g : Grid n n)

theorem det_reduce :
    (reduce (List.finRange n) g).grid.toMatrix.det =
      ((reduce (List.finRange n) g).ops.map RowOp.factor).prod * g.toMatrix.det := by
  have ht := Reduction.tallied_reduce (List.finRange n) g
  rw [ht.toMatrix_eq, Matrix.det_mul, RowOp.det_multiplier ht.elementary]

theorem det_of_short (short : (reduce (List.finRange n) g).pivots.length < n) :
    g.toMatrix.det = 0 := by
  obtain ⟨i, hi⟩ := (Reduction.swept_reduce_finRange g).exists_row_eq_zero short
  have hz : (reduce (List.finRange n) g).grid.toMatrix.det = 0 :=
    Matrix.det_eq_zero_of_row_eq_zero i fun j => hi j j.isLt
  rw [det_reduce] at hz
  have hf := RowOp.prod_factor_ne_zero (Reduction.tallied_reduce (List.finRange n) g).elementary
  exact (mul_eq_zero.mp hz).resolve_left hf

theorem toMatrix_reduce_of_full (full : (reduce (List.finRange n) g).pivots.length = n) :
    (reduce (List.finRange n) g).grid.toMatrix = 1 := by
  ext i j
  rw [Grid.toMatrix_apply, (Reduction.swept_reduce_finRange g).get_of_full full i j.isLt,
    Matrix.one_apply]
  exact if_congr Fin.ext_iff.symm rfl rfl

theorem det_of_full (full : (reduce (List.finRange n) g).pivots.length = n) :
    signedProduct (reduce (List.finRange n) g).swaps
      ((reduce (List.finRange n) g).pivots.map Prod.snd) = g.toMatrix.det := by
  have ht := Reduction.tallied_reduce (List.finRange n) g
  have hd := det_reduce g
  rw [toMatrix_reduce_of_full g full, Matrix.det_one] at hd
  have hsq : ((-1 : ℚ) ^ (reduce (List.finRange n) g).swaps) ^ 2 = 1 := by
    rw [← pow_mul, mul_comm, pow_mul, neg_one_sq, one_pow]
  -- the factors invert the determinant, and the pivots invert the factors up to the sign
  have hf := RowOp.prod_factor_ne_zero ht.elementary
  refine mul_left_cancel₀ hf ?_
  rw [← hd, signedProduct_eq, mul_left_comm, ht.factors, ← pow_two, hsq]

theorem outcome_determinant_of_full (display : DisplayMode) (hr hc : 0 < n)
    (full : (reduce (List.finRange n) g).pivots.length = n) :
    ∃ earlier, (determinant ⟨n, n, g, display, hr, hc⟩).outcome =
      let s := reduce (List.finRange n) g
      let value := signedProduct s.swaps (s.pivots.map Prod.snd)
      let note := productNote (.resolve [display]) s.swaps (s.pivots.map Prod.snd)
      .ok (.record .determinant [.matrix ⟨n, n, g, display, hr, hc⟩]
        (.scalar ⟨value, .resolve [display]⟩)
        (earlier ++ [.noted (.scalar ⟨value, .custom note⟩) note])) := by
  rw [determinant, if_pos (RatMatrix.isSquare_iff.mpr rfl),
    Traced.outcome_bind_of_ok (outcome_reduced (List.finRange n) g)]
  simp only [List.length_map, full, lt_irrefl, if_false]
  exact ⟨_, rfl⟩

theorem outcome_determinant (display : DisplayMode) (hr hc : 0 < n) :
    ∃ steps, (determinant ⟨n, n, g, display, hr, hc⟩).outcome =
      .ok (.record .determinant [.matrix ⟨n, n, g, display, hr, hc⟩]
        (.scalar ⟨g.toMatrix.det, .resolve [display]⟩) steps) := by
  by_cases short : (reduce (List.finRange n) g).pivots.length < n
  · rw [determinant, if_pos (RatMatrix.isSquare_iff.mpr rfl),
      Traced.outcome_bind_of_ok (outcome_reduced (List.finRange n) g)]
    simp only [List.length_map, if_pos short, det_of_short g short]
    exact ⟨_, rfl⟩
  · have full : (reduce (List.finRange n) g).pivots.length = n :=
      le_antisymm (Reduction.swept_reduce_finRange g).height (Nat.le_of_not_lt short)
    obtain ⟨earlier, h⟩ := outcome_determinant_of_full g display hr hc full
    rw [h, ← det_of_full g full]
    exact ⟨_, rfl⟩

end

/-- **The determinant.** Every square matrix has an answer, and it is the determinant. -/
theorem determinant_eq_det (m : RatMatrix) (square : m.rows = m.cols) :
    ∃ s, (determinant m).outcome = .ok s ∧
      s.answer = .scalar ⟨(m.toSquare square).det, displayOf m⟩ := by
  obtain ⟨n, k, g, display, hr, hc⟩ := m
  have hk : n = k := square
  subst hk
  obtain ⟨steps, h⟩ := outcome_determinant g display hr hc
  exact ⟨_, h, rfl⟩

/-- A matrix that needs an exchange of rows has its determinant. -/
theorem determinant_of_exchange :
    let m : RatMatrix := ⟨2, 2, .ofFn ![![0, 2], ![1, 3]], .fraction, by decide, by decide⟩
    m.rows = m.cols ∧ ∃ s, (determinant m).outcome = .ok s ∧
      s.answer = .scalar ⟨-2, .fraction⟩ := by
  intro m
  have square : m.rows = m.cols := rfl
  obtain ⟨s, hs, ha⟩ := determinant_eq_det m square
  refine ⟨square, s, hs, ?_⟩
  have hdet : (m.toSquare square).det = -2 := by
    rw [RatMatrix.toSquare, Matrix.det_fin_two]
    simp [m]
  rw [ha, hdet]
  rfl

end WorkedAlgebra.Elimination
