import Mathlib.LinearAlgebra.Matrix.Notation
import Mathlib.Tactic.NormNum
import WorkedAlgebra.Proofs.Method.Singularity
import WorkedAlgebra.Proofs.Method.Solving

/-!
# Determinant and inverse of a product

The eliminations of two square matrices and of their product have no operation in common, but what
they lead to is known, and so the algebra of determinants and inverses applies.
-/

namespace WorkedAlgebra.Elimination

open MatrixArithmetic

section

variable {n : ℕ} (g h : Grid n n)

theorem answers_determinant (display : DisplayMode) (hr hc : 0 < n) :
    Answers (determinant ⟨n, n, g, display, hr, hc⟩).outcome
      (.scalar ⟨g.toMatrix.det, .resolve [display]⟩) := by
  obtain ⟨steps, hs⟩ := outcome_determinant g display hr hc
  exact ⟨_, hs, rfl⟩

theorem det_mul_ne_zero_iff :
    (g.mul h).toMatrix.det ≠ 0 ↔ g.toMatrix.det ≠ 0 ∧ h.toMatrix.det ≠ 0 := by
  rw [Grid.toMatrix_mul, Matrix.det_mul, mul_ne_zero_iff]

theorem answers_inverse_mul (da db : DisplayMode) (hn : 0 < n)
    (hdet : (g.mul h).toMatrix.det ≠ 0) :
    ∃ x y z, Answers (inverse ⟨n, n, g, da, hn, hn⟩).outcome (.matrix x) ∧
      Answers (inverse ⟨n, n, h, db, hn, hn⟩).outcome (.matrix y) ∧
      Answers (multiply y x) (.matrix z) ∧
      Answers (inverse ⟨n, n, g.mul h, .resolve [da, db], hn, hn⟩).outcome (.matrix z) := by
  obtain ⟨hg, hh⟩ := (det_mul_ne_zero_iff g h).mp hdet
  obtain ⟨x, hx, hxa⟩ := answers_inverse g da hn hn hg
  obtain ⟨y, hy, hya⟩ := answers_inverse h db hn hn hh
  obtain ⟨z, hz, hza⟩ := answers_inverse (g.mul h) (.resolve [da, db]) hn hn hdet
  have hmul : z = y.mul x := by
    refine Grid.toMatrix_injective ?_
    rw [hz, Grid.toMatrix_mul, Matrix.mul_inv_rev, Grid.toMatrix_mul, hx, hy]
  have hmode : DisplayMode.resolve [.resolve [da, db]] =
      .resolve [.resolve [db], .resolve [da]] :=
    DisplayMode.resolve_congr (by simp [or_comm])
  rw [hmul, hmode] at hza
  exact ⟨_, _, _, hxa, hya, answers_multiply _ _ y x hn hn hn hn, hza⟩

end

/-- **Products of square matrices.** Determinants multiply, and a product is singular exactly if a
factor is; else its inverse is the product of the inverses in reverse order. -/
theorem multiply_determinant_inverse (a b : RatMatrix) (ha : a.rows = a.cols)
    (hb : b.rows = b.cols) (same : a.rows = b.rows) :
    ∃ p, Answers (multiply a b) (.matrix p) ∧
      (∃ x y, Answers (determinant a).outcome (.scalar x) ∧
        Answers (determinant b).outcome (.scalar y) ∧
        Answers (determinant p).outcome
          (.scalar ⟨x.value * y.value, .resolve [x.display, y.display]⟩)) ∧
      ((inverse p).outcome = .error .singular ↔
        (∃ e, (inverse a).outcome = .error e) ∨ ∃ e, (inverse b).outcome = .error e) ∧
      ((inverse p).outcome ≠ .error .singular →
        ∃ x y z, Answers (inverse a).outcome (.matrix x) ∧
          Answers (inverse b).outcome (.matrix y) ∧ Answers (multiply y x) (.matrix z) ∧
          Answers (inverse p).outcome (.matrix z)) := by
  obtain ⟨n, k, g, da, hr, hc⟩ := a
  obtain ⟨n', k', h, db, hr', hc'⟩ := b
  obtain rfl : n = k := ha
  obtain rfl : n' = k' := hb
  obtain rfl : n = n' := same
  have hsingular {display : DisplayMode} (m : Grid n n) :
      (∃ e, (inverse ⟨n, n, m, display, hr, hc⟩).outcome = .error e) ↔ m.toMatrix.det = 0 := by
    simp [outcome_inverse_eq_error_iff_det]
  refine ⟨_, answers_multiply da db g h hr hc hr' hc', ⟨_, _, answers_determinant g da hr hc,
    answers_determinant h db hr' hc', ?_⟩, ?_, fun hne => ?_⟩
  · have hmode : DisplayMode.resolve [.resolve [da, db]] =
        .resolve [.resolve [da], .resolve [db]] :=
      DisplayMode.resolve_congr (by simp)
    have hdet := answers_determinant (g.mul h) (.resolve [da, db]) hr hc'
    rwa [Grid.toMatrix_mul, Matrix.det_mul, hmode] at hdet
  · rw [outcome_inverse_eq_error_iff_det, hsingular, hsingular, Grid.toMatrix_mul, Matrix.det_mul,
      mul_eq_zero]
    exact and_iff_right rfl
  · refine answers_inverse_mul g h da db hr fun hz => hne ?_
    exact (outcome_inverse_eq_error_iff_det _ _ _ _).mpr ⟨rfl, hz⟩

theorem multiply_determinant_inverse_of_exchange :
    let a : RatMatrix := ⟨2, 2, .ofFn ![![0, 2], ![1, 3]], .fraction, by decide, by decide⟩
    let b : RatMatrix := ⟨2, 2, .ofFn ![![1, 2], ![1, 4]], .decimal, by decide, by decide⟩
    a.rows = a.cols ∧ b.rows = b.cols ∧ a.rows = b.rows ∧
      ∃ p x y z, Answers (multiply a b) (.matrix p) ∧ Answers (inverse a).outcome (.matrix x) ∧
        Answers (inverse b).outcome (.matrix y) ∧ Answers (multiply y x) (.matrix z) ∧
        Answers (inverse p).outcome (.matrix z) := by
  intro a b
  have hdet : a.grid.toMatrix.det ≠ 0 ∧ b.grid.toMatrix.det ≠ 0 := by
    rw [Matrix.det_fin_two, Matrix.det_fin_two]
    norm_num [a, b]
  obtain ⟨p, hp, -, hsingular, hinverse⟩ := multiply_determinant_inverse a b rfl rfl rfl
  refine ⟨rfl, rfl, rfl, p, ?_⟩
  obtain ⟨x, y, z, h⟩ := hinverse fun he => by
    rcases hsingular.mp he with ⟨e, he⟩ | ⟨e, he⟩
    · exact hdet.1 ((outcome_inverse_eq_error_iff_det _ _ _ _).mp he).2
    · exact hdet.2 ((outcome_inverse_eq_error_iff_det _ _ _ _).mp he).2
  exact ⟨x, y, z, hp, h⟩

end WorkedAlgebra.Elimination
