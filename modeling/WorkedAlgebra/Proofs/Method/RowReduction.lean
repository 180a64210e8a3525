import WorkedAlgebra.Method.Elimination
import WorkedAlgebra.Proofs.Method.Sweep

/-!
# Row reduction

* **`Elimination.rowReduce_isReducedRowEchelon`**: the answer to a row reduction is in reduced row
  echelon form, and an invertible matrix leads to it.
-/

namespace WorkedAlgebra.Elimination

theorem outcome_reduced {ε : Type} {r c : ℕ} (columns : List (Fin c)) (g : Grid r c) :
    (reduced columns g : Traced ε (Reduction r c)).outcome = .ok (reduce columns g) := rfl

theorem outcome_rowReduce_eq_record (m : RatMatrix) :
    (rowReduce m).outcome = .ok (.record .rowReduce [.matrix m]
      (.matrix { m with
        grid := (reduce (List.finRange m.cols) m.grid).grid, display := displayOf m })
      (shown m.grid (reduce (List.finRange m.cols) m.grid).ops (displayOf m) m.rows_pos
        m.cols_pos)) := by
  rw [rowReduce, Traced.outcome_bind_of_ok (outcome_reduced (List.finRange m.cols) m.grid)]
  rfl

theorem outcome_rowReduce (m : RatMatrix) :
    ∃ steps, (rowReduce m).outcome = .ok (.record .rowReduce [.matrix m]
      (.matrix { m with
        grid := (reduce (List.finRange m.cols) m.grid).grid, display := displayOf m }) steps) :=
  ⟨_, outcome_rowReduce_eq_record m⟩

/-- **Row reduction.** Every matrix has an answer of its own shape that is in reduced row echelon
form, and an invertible matrix leads from the one to the other. -/
theorem rowReduce_isReducedRowEchelon (m : RatMatrix) :
    ∃ s g, (rowReduce m).outcome = .ok s ∧
      s.answer = .matrix { m with grid := g, display := displayOf m } ∧
      g.toMatrix.IsReducedRowEchelon ∧
      ∃ E : Matrix (Fin m.rows) (Fin m.rows) ℚ, IsUnit E ∧ g.toMatrix = E * m.grid.toMatrix := by
  obtain ⟨steps, h⟩ := outcome_rowReduce m
  have ht := Reduction.tallied_reduce (List.finRange m.cols) m.grid
  refine ⟨_, _, h, rfl, (Reduction.swept_reduce_finRange m.grid).isReducedRowEchelon,
    RowOp.multiplier (reduce (List.finRange m.cols) m.grid).ops, ?_, ?_⟩
  · exact ht.isUnit_multiplier
  · exact ht.toMatrix_eq

end WorkedAlgebra.Elimination
