import Mathlib.LinearAlgebra.Matrix.Rank
import WorkedAlgebra.Proofs.Method.RowReduction

/-!
# The column space

The operations of an elimination turn the pivot columns of a grid into unit vectors and keep every
linear relation between columns, so the pivot columns are a basis of the column space
(**`Reduction.Swept.isColumnBasis`**).
-/

namespace WorkedAlgebra

/-- The columns at some positions are a **basis of the column space**. -/
structure IsColumnBasis {r c k : ℕ} (A : Matrix (Fin r) (Fin c) ℚ) (pos : Fin k → Fin c) :
    Prop where
  increasing : StrictMono pos
  independent : LinearIndependent ℚ fun l => A.col (pos l)
  spanning : ∀ j, A.col j ∈ Submodule.span ℚ (Set.range fun l => A.col (pos l))

theorem IsColumnBasis.finrank_eq {r c k : ℕ} {A : Matrix (Fin r) (Fin c) ℚ} {pos : Fin k → Fin c}
    (h : IsColumnBasis A pos) :
    Module.finrank ℚ (Submodule.span ℚ (Set.range A.col)) = k := by
  have hspan : Submodule.span ℚ (Set.range A.col) =
      Submodule.span ℚ (Set.range fun l => A.col (pos l)) := by
    refine le_antisymm (Submodule.span_le.mpr ?_) (Submodule.span_mono ?_)
    · rintro _ ⟨j, rfl⟩
      exact h.spanning j
    · rintro _ ⟨l, rfl⟩
      exact ⟨pos l, rfl⟩
  rw [hspan, finrank_span_eq_card h.independent, Fintype.card_fin]

namespace Reduction

variable {r c : ℕ} {g : Grid r c} {s : Reduction r c}

namespace Swept

def pivotRow {k : ℕ} (hs : s.Swept k) (l : Fin s.pivotColumns.length) : Fin r :=
  ⟨l.val, l.isLt.trans_le (by rw [length_pivotColumns]; exact hs.height)⟩

theorem pivotRow_injective {k : ℕ} (hs : s.Swept k) : Function.Injective hs.pivotRow :=
  fun _ _ h => Fin.ext (Fin.mk.inj h)

theorem pivotAt_pivotRow {k : ℕ} (hs : s.Swept k) (l : Fin s.pivotColumns.length) :
    s.PivotAt (hs.pivotRow l) (s.pivotColumns.get l) :=
  List.getElem?_eq_getElem l.isLt

theorem get_of_ne_pivotRow (hs : s.Swept c) {i : Fin r} (hi : ∀ l, hs.pivotRow l ≠ i)
    (j : Fin c) : s.grid.get i j = 0 := by
  refine hs.below i ?_ j j.isLt
  by_contra hlt
  rw [not_le, ← length_pivotColumns] at hlt
  exact hi ⟨i.val, hlt⟩ rfl

/-- **The operations of an elimination turn a pivot column into a unit vector.** -/
theorem mulVec_col_pivot {k : ℕ} (hs : s.Swept k) (ht : Tallied g s)
    (l : Fin s.pivotColumns.length) :
    (RowOp.multiplier s.ops).mulVec (g.toMatrix.col (s.pivotColumns.get l)) =
      Pi.single (hs.pivotRow l) 1 := by
  funext i
  have h := hs.cleared _ _ (hs.pivotAt_pivotRow l) i
  rw [← Grid.toMatrix_apply, ht.toMatrix_eq] at h
  rw [Pi.single_apply, ← h]
  rfl

theorem linearIndependent_pivotColumns {k : ℕ} (hs : s.Swept k) (ht : Tallied g s) :
    LinearIndependent ℚ fun l => g.toMatrix.col (s.pivotColumns.get l) := by
  refine LinearIndependent.of_comp (RowOp.multiplier s.ops).mulVecLin ?_
  have hunit : (RowOp.multiplier s.ops).mulVecLin ∘
      (fun l => g.toMatrix.col (s.pivotColumns.get l)) =
        Pi.basisFun ℚ (Fin r) ∘ hs.pivotRow := by
    funext l
    rw [Function.comp_apply, Matrix.mulVecLin_apply, hs.mulVec_col_pivot ht, Function.comp_apply,
      Pi.basisFun_apply]
  rw [hunit]
  exact (Pi.basisFun ℚ (Fin r)).linearIndependent.comp _ hs.pivotRow_injective

theorem mulVec_sum_pivots (hs : s.Swept c) (ht : Tallied g s) (j : Fin c) :
    (RowOp.multiplier s.ops).mulVec
        (∑ l, s.grid.get (hs.pivotRow l) j • g.toMatrix.col (s.pivotColumns.get l)) =
      (RowOp.multiplier s.ops).mulVec (g.toMatrix.col j) := by
  have hcol : (RowOp.multiplier s.ops).mulVec (g.toMatrix.col j) = s.grid.toMatrix.col j := by
    rw [ht.toMatrix_eq]
    rfl
  rw [hcol, Matrix.mulVec_sum]
  funext i
  simp only [Matrix.mulVec_smul, hs.mulVec_col_pivot ht, Finset.sum_apply, Pi.smul_apply,
    Pi.single_apply, smul_eq_mul, mul_ite, mul_one, mul_zero]
  change _ = s.grid.get i j
  by_cases hi : ∃ l, hs.pivotRow l = i
  · -- the row has a pivot, whose unit vector is the only one that reaches it
    obtain ⟨l, rfl⟩ := hi
    rw [Finset.sum_eq_single l]
    · exact if_pos rfl
    · intro l' _ hl
      exact if_neg fun h => hl (hs.pivotRow_injective h).symm
    · exact fun h => absurd (Finset.mem_univ l) h
  · rw [hs.get_of_ne_pivotRow fun l hl => hi ⟨l, hl⟩]
    exact Finset.sum_eq_zero fun l _ => if_neg fun h => hi ⟨l, h.symm⟩

/-- **The pivot columns are a basis of the column space.** -/
theorem isColumnBasis (hs : s.Swept c) (ht : Tallied g s) :
    IsColumnBasis g.toMatrix s.pivotColumns.get where
  increasing := List.pairwise_iff_get.mp hs.ordered
  independent := hs.linearIndependent_pivotColumns ht
  spanning j := by
    have hinj := Matrix.mulVec_injective_iff_isUnit.mpr ht.isUnit_multiplier
    rw [← hinj (hs.mulVec_sum_pivots ht j)]
    exact Submodule.sum_mem _ fun l _ =>
      Submodule.smul_mem _ _ (Submodule.subset_span ⟨l, rfl⟩)

theorem pivotColumns_eq_nil_iff (hs : s.Swept c) (ht : Tallied g s) :
    s.pivotColumns = [] ↔ ∀ i j, g.get i j = 0 := by
  constructor
  · intro hnil i j
    have hspan := (hs.isColumnBasis ht).spanning j
    have hempty : IsEmpty (Fin s.pivotColumns.length) := by
      rw [hnil]
      exact Fin.isEmpty
    rw [Set.range_eq_empty, Submodule.span_empty, Submodule.mem_bot] at hspan
    exact congrFun hspan i
  · intro hz
    rw [← List.length_eq_zero_iff]
    by_contra hne
    -- a column of zeros is not linearly independent
    have hcol := (hs.linearIndependent_pivotColumns ht).ne_zero ⟨0, Nat.pos_of_ne_zero hne⟩
    exact hcol (funext fun i => hz i _)

end Swept
end Reduction

/-! ## The answers -/

namespace Elimination

theorem outcome_rank (m : RatMatrix) :
    ∃ steps, (rank m).outcome = .ok (.record .rank [.matrix m]
      (.scalar ⟨((reduce (List.finRange m.cols) m.grid).pivots.length : ℚ), displayOf m⟩)
      steps) := by
  rw [rank, Traced.outcome_bind_of_ok (outcome_reduced (List.finRange m.cols) m.grid)]
  exact ⟨_, rfl⟩

theorem outcome_columnSpace (m : RatMatrix) :
    ∃ steps, (columnSpace m).outcome = .ok (.record .columnSpace [.matrix m]
      (.matrix (columnsAt m (displayOf m)
        (reduce (List.finRange m.cols) m.grid).pivotColumns)) steps) := by
  rw [columnSpace, Traced.outcome_bind_of_ok (outcome_reduced (List.finRange m.cols) m.grid)]
  exact ⟨_, rfl⟩

theorem columnsAt_of_pos (m : RatMatrix) (display : DisplayMode) {cols : List (Fin m.cols)}
    (h : 0 < cols.length) :
    columnsAt m display cols =
      ⟨m.rows, cols.length, .ofFn fun i l => m.grid.get i (cols.get l), display, m.rows_pos,
        h⟩ := by
  cases cols with
  | nil => exact absurd h (Nat.lt_irrefl 0)
  | cons col cols => rfl

/-- **The column space and the rank.** The rank is the dimension of the space that the columns span,
and the answer is a basis of it, or a column of zeros if it is zero. -/
theorem columnSpace_isColumnBasis (m : RatMatrix) :
    ∃ s t k, (rank m).outcome = .ok s ∧ s.answer = .scalar ⟨(k : ℕ), displayOf m⟩ ∧
      (columnSpace m).outcome = .ok t ∧
      Module.finrank ℚ (Submodule.span ℚ (Set.range m.grid.toMatrix.col)) = k ∧
      (∀ hk : 1 ≤ k, ∃ pos : Fin k → Fin m.cols, IsColumnBasis m.grid.toMatrix pos ∧
        t.answer = .matrix ⟨m.rows, k, .ofFn fun i l => m.grid.get i (pos l), displayOf m,
          m.rows_pos, hk⟩) ∧
      (k = 0 ↔ ∀ i j, m.grid.get i j = 0) ∧
      (k = 0 → t.answer = .matrix ⟨m.rows, 1, .ofFn fun _ _ => 0, displayOf m, m.rows_pos,
        Nat.one_pos⟩) := by
  obtain ⟨rankSteps, hrank⟩ := outcome_rank m
  obtain ⟨spaceSteps, hspace⟩ := outcome_columnSpace m
  have hs := Reduction.swept_reduce_finRange m.grid
  have ht := Reduction.tallied_reduce (List.finRange m.cols) m.grid
  have hbasis := hs.isColumnBasis ht
  have hnil := hs.pivotColumns_eq_nil_iff ht
  rw [← Reduction.length_pivotColumns] at hrank
  refine ⟨_, _, _, hrank, rfl, hspace, hbasis.finrank_eq, ?_, ?_, ?_⟩
  · intro hk
    exact ⟨_, hbasis, congrArg Value.matrix (columnsAt_of_pos m (displayOf m) hk)⟩
  · rw [List.length_eq_zero_iff]
    exact hnil
  · intro hk
    change Value.matrix (columnsAt m (displayOf m) _) = _
    rw [List.length_eq_zero_iff.mp hk]
    rfl

end Elimination
end WorkedAlgebra
