import Mathlib.Tactic.TFAE
import WorkedAlgebra.Proofs.Method.ColumnSpace
import WorkedAlgebra.Proofs.Method.Determinant
import WorkedAlgebra.Proofs.Method.Inverse

/-!
# Singular matrices

The elimination of a square grid by itself and the one beside the identity may work on different
rows, but both find a pivot for every row exactly if the determinant is not zero
(**`Elimination.inverse_cases_det`**).
-/

namespace WorkedAlgebra.Elimination

section

variable {n : ℕ} (g : Grid n n)

theorem det_ne_zero_iff_full :
    g.toMatrix.det ≠ 0 ↔ (reduce (List.finRange n) g).pivots.length = n := by
  constructor
  · intro hdet
    by_contra hne
    have hle := (Reduction.swept_reduce_finRange g).height
    exact hdet (det_of_short g (by omega))
  · intro full
    have ht := Reduction.tallied_reduce (List.finRange n) g
    have hone := ht.toMatrix_eq
    rw [toMatrix_reduce_of_full g full] at hone
    exact (Matrix.isUnit_det_of_left_inverse hone.symm).ne_zero

theorem toMatrix_reduce_eq_one_iff_full :
    (reduce (List.finRange n) g).grid.toMatrix = 1 ↔
      (reduce (List.finRange n) g).pivots.length = n := by
  refine ⟨fun hone => ?_, toMatrix_reduce_of_full g⟩
  by_contra hne
  have hs := Reduction.swept_reduce_finRange g
  have hle := hs.height
  -- some row of the identity would be zero, also on the diagonal
  obtain ⟨i, hi⟩ := hs.exists_row_eq_zero (by omega)
  have hii : (reduce (List.finRange n) g).grid.toMatrix i i = 0 := hi i i.isLt
  rw [hone, Matrix.one_apply_eq] at hii
  exact one_ne_zero hii

variable (display : DisplayMode) (hr hc : 0 < n)

theorem inverse_cases_det :
    (g.toMatrix.det = 0 ∧ (inverse ⟨n, n, g, display, hr, hc⟩).outcome = .error .singular) ∨
      g.toMatrix.det ≠ 0 ∧ ∃ x : Grid n n, x.toMatrix = g.toMatrix⁻¹ ∧
        Answers (inverse ⟨n, n, g, display, hr, hc⟩).outcome
          (.matrix ⟨n, n, x, .resolve [display], hr, hr⟩) := by
  rcases outcome_inverse_cases display g hr hc with ⟨h, hnone⟩ | ⟨x, hleft, steps, h⟩
  · refine .inl ⟨?_, h⟩
    by_contra hdet
    exact hnone _ (Matrix.mul_nonsing_inv _ (isUnit_iff_ne_zero.mpr hdet))
  · refine .inr ⟨(Matrix.isUnit_det_of_left_inverse hleft).ne_zero, x, ?_, _, h, rfl⟩
    exact (Matrix.inv_eq_left_inv hleft).symm

theorem answers_inverse (hdet : g.toMatrix.det ≠ 0) :
    ∃ x : Grid n n, x.toMatrix = g.toMatrix⁻¹ ∧
      Answers (inverse ⟨n, n, g, display, hr, hc⟩).outcome
        (.matrix ⟨n, n, x, .resolve [display], hr, hr⟩) :=
  ((inverse_cases_det g display hr hc).resolve_left fun h => hdet h.1).2

theorem outcome_inverse_ok_iff :
    (∃ s, (inverse ⟨n, n, g, display, hr, hc⟩).outcome = .ok s) ↔ g.toMatrix.det ≠ 0 := by
  rcases inverse_cases_det g display hr hc with ⟨hdet, h⟩ | ⟨hdet, x, -, s, hs, -⟩
  · rw [h]
    exact iff_of_false (fun ⟨s, hs⟩ => nomatch hs) fun hne => hne hdet
  · exact iff_of_true ⟨s, hs⟩ hdet

theorem outcome_inverse_eq_error_iff_det {e : MethodFault} :
    (inverse ⟨n, n, g, display, hr, hc⟩).outcome = .error e ↔
      e = .singular ∧ g.toMatrix.det = 0 := by
  rcases inverse_cases_det g display hr hc with ⟨hdet, h⟩ | ⟨hdet, x, -, s, hs, -⟩
  · rw [h, Except.error.injEq, eq_comm]
    exact (and_iff_left hdet).symm
  · rw [hs]
    exact iff_of_false nofun fun h => hdet h.2

end

/-- **Singular matrices.** Inverse, determinant, rank and reduced form agree on whether a square
matrix is singular. -/
theorem singularity_agrees (m : RatMatrix) (square : m.rows = m.cols) :
    ∃ sd sk sg d k g,
      (determinant m).outcome = .ok sd ∧ sd.answer = .scalar ⟨d, displayOf m⟩ ∧
      (rank m).outcome = .ok sk ∧ sk.answer = .scalar ⟨(k : ℕ), displayOf m⟩ ∧
      (rowReduce m).outcome = .ok sg ∧
        sg.answer = .matrix { m with grid := g, display := displayOf m } ∧
      [∃ s, (inverse m).outcome = .ok s, d ≠ 0, k = m.rows,
        ∀ i j, g.get i j = if i.val = j.val then 1 else 0].TFAE := by
  obtain ⟨n, c, g, display, hr, hc⟩ := m
  have hk : n = c := square
  subst hk
  obtain ⟨detSteps, hdet⟩ := outcome_determinant g display hr hc
  obtain ⟨rankSteps, hrank⟩ := outcome_rank ⟨n, n, g, display, hr, hc⟩
  obtain ⟨reduceSteps, hreduce⟩ := outcome_rowReduce ⟨n, n, g, display, hr, hc⟩
  refine ⟨_, _, _, _, _, _, hdet, rfl, hrank, rfl, hreduce, rfl, ?_⟩
  tfae_have 1 ↔ 2 := outcome_inverse_ok_iff g display hr hc
  tfae_have 2 ↔ 3 := det_ne_zero_iff_full g
  tfae_have 3 ↔ 4 := by
    rw [← toMatrix_reduce_eq_one_iff_full g, ← Matrix.ext_iff]
    refine forall_congr' fun i => forall_congr' fun j => ?_
    rw [Grid.toMatrix_apply, Matrix.one_apply]
    simp only [Fin.ext_iff]
  tfae_finish

/-- A matrix that needs an exchange of rows has the determinant `-2`, so it has an inverse. -/
theorem singularity_of_exchange :
    let m : RatMatrix := ⟨2, 2, .ofFn ![![0, 2], ![1, 3]], .fraction, by decide, by decide⟩
    m.rows = m.cols ∧ ∃ s, (inverse m).outcome = .ok s := by
  intro m
  have square : m.rows = m.cols := rfl
  obtain ⟨sd, _, _, d, _, _, hd, ha, _, _, _, _, hall⟩ := singularity_agrees m square
  refine ⟨square, (hall.out 0 1).mpr ?_⟩
  have hdet : m.grid.toMatrix.det = -2 := by
    rw [Matrix.det_fin_two]
    simp [m]
  obtain ⟨steps, hs⟩ := outcome_determinant m.grid m.display m.rows_pos m.cols_pos
  obtain rfl := Except.ok.inj (hd.symm.trans hs)
  have hvalue : (Value.scalar ⟨m.grid.toMatrix.det, displayOf m⟩) = .scalar ⟨d, displayOf m⟩ := ha
  rw [hdet] at hvalue
  obtain rfl : -2 = d := by simpa using hvalue
  decide

end WorkedAlgebra.Elimination
