import Mathlib.LinearAlgebra.Matrix.Notation
import Mathlib.Tactic.FinCases
import Mathlib.Tactic.NormNum
import WorkedAlgebra.Proofs.Method.RowReduction
import WorkedAlgebra.Proofs.Value.Entries
import WorkedAlgebra.Proofs.Value.ReducedEchelon

/-!
# The canonical form of a row space

Row operations keep the row space, and a row space has only one reduced form, so what an elimination
leads to depends on the row space alone (**`Elimination.toMatrix_reduce_eq_iff`**).
-/

namespace WorkedAlgebra

open Matrix

def RatMatrix.toShape (m : RatMatrix) {r c : ℕ} (rows : m.rows = r) (cols : m.cols = c) :
    Matrix (Fin r) (Fin c) ℚ :=
  Matrix.of fun i j => m.grid.get (i.cast rows.symm) (j.cast cols.symm)

theorem RowOp.sameRowSpace_applyAll {r c : ℕ} {ops : List (RowOp r)}
    (h : ∀ op ∈ ops, op.IsElementary) (g : Grid r c) :
    (applyAll ops g).toMatrix.SameRowSpace g.toMatrix := by
  rw [toMatrix_applyAll]
  exact sameRowSpace_mul (isUnit_multiplier h) g.toMatrix

namespace Elimination

section

variable {r c : ℕ} (g h : Grid r c)

theorem sameRowSpace_reduce :
    (reduce (List.finRange c) g).grid.toMatrix.SameRowSpace g.toMatrix := by
  have ht := Reduction.tallied_reduce (List.finRange c) g
  rw [ht.toMatrix_eq]
  exact sameRowSpace_mul ht.isUnit_multiplier g.toMatrix

theorem toMatrix_reduce_eq {R : Matrix (Fin r) (Fin c) ℚ} (hR : R.IsReducedRowEchelon)
    (hrow : R.SameRowSpace g.toMatrix) : (reduce (List.finRange c) g).grid.toMatrix = R := by
  have hs := (Reduction.swept_reduce_finRange g).isReducedRowEchelon
  exact hs.eq_of_sameRowSpace hR ((sameRowSpace_reduce g).trans hrow.symm)

theorem toMatrix_reduce_eq_iff :
    (reduce (List.finRange c) g).grid.toMatrix = (reduce (List.finRange c) h).grid.toMatrix ↔
      g.toMatrix.SameRowSpace h.toMatrix := by
  constructor
  · intro heq
    have hg := sameRowSpace_reduce g
    rw [heq] at hg
    exact hg.symm.trans (sameRowSpace_reduce h)
  · intro hrow
    have hs := (Reduction.swept_reduce_finRange h).isReducedRowEchelon
    exact toMatrix_reduce_eq g hs ((sameRowSpace_reduce h).trans hrow.symm)

end

/-- **The canonical form.** Row reduction answers two matrices of one shape with equal entries
exactly if the rows of each are combinations of the rows of the other. -/
theorem rowReduce_isCanonical (a b : RatMatrix) (rows : b.rows = a.rows) (cols : b.cols = a.cols) :
    ∃ s t g h, (rowReduce a).outcome = .ok s ∧
      s.answer = .matrix { a with grid := g, display := displayOf a } ∧
      (rowReduce b).outcome = .ok t ∧
      t.answer = .matrix { b with grid := h, display := displayOf b } ∧
      (g.entries = h.entries ↔ a.grid.toMatrix.SameRowSpace (b.toShape rows cols)) ∧
      (∀ ops : List (RowOp a.rows), (∀ op ∈ ops, op.IsElementary) →
        (RowOp.applyAll ops a.grid).toMatrix.IsReducedRowEchelon →
        RowOp.applyAll ops a.grid = g) ∧
      ∀ σ : Equiv.Perm (Fin a.rows), ∃ s',
        (rowReduce { a with grid := .ofFn fun i j => a.grid.get (σ i) j }).outcome = .ok s' ∧
        s'.answer = s.answer := by
  obtain ⟨r, c, g, da, hr, hc⟩ := a
  obtain ⟨r', c', h, db, hr', hc'⟩ := b
  have hrows : r' = r := rows
  have hcols : c' = c := cols
  subst hrows hcols
  obtain ⟨aSteps, ha⟩ := outcome_rowReduce ⟨r', c', g, da, hr, hc⟩
  obtain ⟨bSteps, hb⟩ := outcome_rowReduce ⟨r', c', h, db, hr', hc'⟩
  refine ⟨_, _, _, _, ha, rfl, hb, rfl, ?_, ?_, ?_⟩
  · rw [Grid.entries_injective.eq_iff, ← Grid.toMatrix_injective.eq_iff]
    exact toMatrix_reduce_eq_iff g h
  · intro ops helem hreduced
    refine Grid.toMatrix_injective (toMatrix_reduce_eq g hreduced ?_).symm
    exact RowOp.sameRowSpace_applyAll helem g
  · intro σ
    obtain ⟨steps, hσ⟩ := outcome_rowReduce
      ⟨r', c', .ofFn fun i j => g.get (σ i) j, da, hr, hc⟩
    refine ⟨_, hσ, ?_⟩
    have heq : (reduce (List.finRange c') (.ofFn fun i j => g.get (σ i) j)).grid =
        (reduce (List.finRange c') g).grid := by
      refine Grid.toMatrix_injective ((toMatrix_reduce_eq_iff _ _).mpr ?_)
      rw [Grid.toMatrix_ofFn]
      exact (sameRowSpace_submatrix g.toMatrix σ).symm
    exact congrArg (fun x => Value.matrix ⟨r', c', x, .resolve [da], hr, hc⟩) heq

theorem rowReduce_isCanonical_of_exchange :
    let a : RatMatrix := ⟨2, 2, .ofFn ![![0, 2], ![1, 3]], .fraction, by decide, by decide⟩
    let b : RatMatrix := ⟨2, 2, .ofFn ![![1, 3], ![1, 5]], .decimal, by decide, by decide⟩
    b.rows = a.rows ∧ b.cols = a.cols ∧ ∃ s t g h, (rowReduce a).outcome = .ok s ∧
      s.answer = .matrix { a with grid := g, display := .fraction } ∧
      (rowReduce b).outcome = .ok t ∧
      t.answer = .matrix { b with grid := h, display := .decimal } ∧ g.entries = h.entries := by
  intro a b
  obtain ⟨s, t, g, h, hs, hsa, ht, hta, hiff, -, -⟩ := rowReduce_isCanonical a b rfl rfl
  refine ⟨rfl, rfl, s, t, g, h, hs, hsa, ht, hta, hiff.mpr ?_⟩
  -- an invertible matrix leads from the one to the other
  have hmul : a.grid.toMatrix = !![-1, 1; 1, 0] * b.toShape rfl rfl := by
    ext i j
    rw [Matrix.mul_apply, Fin.sum_univ_two]
    fin_cases i <;> fin_cases j <;> norm_num [a, b, RatMatrix.toShape]
  rw [hmul]
  refine sameRowSpace_mul ?_ _
  rw [Matrix.isUnit_iff_isUnit_det, Matrix.det_fin_two]
  norm_num

end Elimination
end WorkedAlgebra
