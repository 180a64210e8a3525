import Mathlib.LinearAlgebra.Matrix.Notation
import Mathlib.Tactic.NormNum
import WorkedAlgebra.Proofs.Method.Product

/-!
# Transposed matrices

The elimination of a transposed matrix works on other pivots altogether, but finds as many of them
(`Elimination.length_pivots_eq_rank`).
-/

namespace WorkedAlgebra.Elimination

open MatrixArithmetic

section

variable {r c n : ℕ}

theorem length_pivots_eq_rank (g : Grid r c) :
    (reduce (List.finRange c) g).pivots.length = g.toMatrix.rank := by
  have hbasis := (Reduction.swept_reduce_finRange g).isColumnBasis
    (Reduction.tallied_reduce (List.finRange c) g)
  rw [Matrix.rank_eq_finrank_span_cols, hbasis.finrank_eq, Reduction.length_pivotColumns]

theorem answers_rank (g : Grid r c) (display : DisplayMode) (hr : 0 < r) (hc : 0 < c) :
    Answers (rank ⟨r, c, g, display, hr, hc⟩).outcome
      (.scalar ⟨(g.toMatrix.rank : ℚ), .resolve [display]⟩) := by
  obtain ⟨steps, hs⟩ := outcome_rank ⟨r, c, g, display, hr, hc⟩
  rw [length_pivots_eq_rank] at hs
  exact ⟨_, hs, rfl⟩

theorem answers_inverse_transpose (g : Grid n n) (display : DisplayMode) (hn : 0 < n)
    (hdet : g.toMatrix.det ≠ 0) :
    ∃ x y, Answers (inverse ⟨n, n, g, display, hn, hn⟩).outcome (.matrix x) ∧
      Answers (transpose x) (.matrix y) ∧
      Answers (inverse ⟨n, n, g.transpose, .resolve [display], hn, hn⟩).outcome (.matrix y) := by
  obtain ⟨x, hx, hxa⟩ := answers_inverse g display hn hn hdet
  have hdet' : g.transpose.toMatrix.det ≠ 0 := by
    rwa [Grid.toMatrix_transpose, Matrix.det_transpose]
  obtain ⟨y, hy, hya⟩ := answers_inverse g.transpose (.resolve [display]) hn hn hdet'
  have htranspose : y = x.transpose := by
    refine Grid.toMatrix_injective ?_
    rw [hy, Grid.toMatrix_transpose, Grid.toMatrix_transpose, hx, Matrix.transpose_nonsing_inv]
  rw [htranspose] at hya
  exact ⟨_, _, hxa, answers_transpose _ x hn hn, hya⟩

end

/-- **Transposed matrices** have the same rank and determinant, and the inverse of the transpose is
the transpose of the inverse. -/
theorem transpose_rank_determinant_inverse (m : RatMatrix) :
    ∃ t, Answers (transpose m) (.matrix t) ∧
      (∃ k, Answers (rank m).outcome (.scalar k) ∧ Answers (rank t).outcome (.scalar k)) ∧
      (m.rows = m.cols →
        (∃ d, Answers (determinant m).outcome (.scalar d) ∧
          Answers (determinant t).outcome (.scalar d)) ∧
        ((inverse t).outcome = .error .singular ↔ (inverse m).outcome = .error .singular) ∧
        ((inverse m).outcome = .error .singular ∨
          ∃ x y, Answers (inverse m).outcome (.matrix x) ∧ Answers (transpose x) (.matrix y) ∧
            Answers (inverse t).outcome (.matrix y))) := by
  obtain ⟨r, c, g, display, hr, hc⟩ := m
  have hmode : DisplayMode.resolve [.resolve [display]] = .resolve [display] :=
    DisplayMode.resolve_congr (by simp)
  refine ⟨_, answers_transpose display g hr hc, ⟨_, answers_rank g display hr hc, ?_⟩,
    fun square => ?_⟩
  · have h := answers_rank g.transpose (.resolve [display]) hc hr
    rwa [Grid.toMatrix_transpose, Matrix.rank_transpose, hmode] at h
  · obtain rfl : r = c := square
    refine ⟨⟨_, answers_determinant g display hr hc, ?_⟩, ?_, ?_⟩
    · have h := answers_determinant g.transpose (.resolve [display]) hc hr
      rwa [Grid.toMatrix_transpose, Matrix.det_transpose, hmode] at h
    · rw [outcome_inverse_eq_error_iff_det, outcome_inverse_eq_error_iff_det,
        Grid.toMatrix_transpose, Matrix.det_transpose]
    · by_cases hdet : g.toMatrix.det = 0
      · exact .inl ((outcome_inverse_eq_error_iff_det _ _ _ _).mpr ⟨rfl, hdet⟩)
      · exact .inr (answers_inverse_transpose g display hr hdet)

theorem transpose_rank_determinant_inverse_of_exchange :
    let m : RatMatrix := ⟨2, 2, .ofFn ![![0, 2], ![1, 3]], .decimal, by decide, by decide⟩
    m.rows = m.cols ∧ ∃ t x y, Answers (transpose m) (.matrix t) ∧
      Answers (inverse m).outcome (.matrix x) ∧ Answers (transpose x) (.matrix y) ∧
      Answers (inverse t).outcome (.matrix y) := by
  intro m
  obtain ⟨t, ht, -, hsquare⟩ := transpose_rank_determinant_inverse m
  obtain ⟨-, -, hinverse⟩ := hsquare rfl
  have hdet : m.grid.toMatrix.det ≠ 0 := by
    rw [Matrix.det_fin_two]
    norm_num [m]
  obtain ⟨x, y, h⟩ := hinverse.resolve_left fun he =>
    hdet ((outcome_inverse_eq_error_iff_det _ _ _ _).mp he).2
  exact ⟨rfl, t, x, y, ht, h⟩

end WorkedAlgebra.Elimination
