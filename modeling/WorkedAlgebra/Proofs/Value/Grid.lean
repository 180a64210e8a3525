import Mathlib.Algebra.BigOperators.Fin
import Mathlib.Data.Matrix.Mul
import Mathlib.Data.Rat.Defs
import WorkedAlgebra.Value.RatMatrix

/-!
# Grids as matrices

* `Grid.toMatrix_identity`, **`Grid.toMatrix_mul`**, `Grid.toMatrix_transpose` — the identity grid,
  the product and the transpose of grids are those of matrices.
-/

namespace WorkedAlgebra

namespace Grid

variable {r c d : ℕ}

def toMatrix (g : Grid r c) : Matrix (Fin r) (Fin c) ℚ :=
  Matrix.of g.get

@[simp] theorem toMatrix_apply (g : Grid r c) (i : Fin r) (j : Fin c) :
    g.toMatrix i j = g.get i j := rfl

@[simp] theorem toMatrix_ofFn (f : Fin r → Fin c → ℚ) : (ofFn f).toMatrix = Matrix.of f := by
  ext i j
  rw [toMatrix_apply, get_ofFn, Matrix.of_apply]

theorem toMatrix_injective : Function.Injective (toMatrix : Grid r c → _) := by
  intro g h hgh
  ext i j
  exact congrFun (congrFun hgh i) j

def ofMatrix (A : Matrix (Fin r) (Fin c) ℚ) : Grid r c :=
  ofFn fun i j => A i j

@[simp] theorem get_ofMatrix (A : Matrix (Fin r) (Fin c) ℚ) (i : Fin r) (j : Fin c) :
    (ofMatrix A).get i j = A i j :=
  get_ofFn _ i j

@[simp] theorem ofMatrix_toMatrix (g : Grid r c) : ofMatrix g.toMatrix = g := by
  ext i j
  rw [get_ofMatrix, toMatrix_apply]

@[simp] theorem toMatrix_ofMatrix (A : Matrix (Fin r) (Fin c) ℚ) : (ofMatrix A).toMatrix = A := by
  ext i j
  rw [toMatrix_apply, get_ofMatrix]

@[simp] theorem toMatrix_identity (n : ℕ) : (identity n).toMatrix = 1 := by
  ext i j
  rw [toMatrix_apply, identity, get_ofFn, Matrix.one_apply]

theorem foldl_add_finRange {n : ℕ} (f : Fin n → ℚ) :
    (List.finRange n).foldl (fun sum l => sum + f l) 0 = ∑ l, f l := by
  rw [Fin.sum_univ_def, List.sum_eq_foldl, List.foldl_map]

/-- **The product of grids is that of matrices.** -/
@[simp] theorem toMatrix_mul {n m k : ℕ} (g : Grid n m) (h : Grid m k) :
    (g.mul h).toMatrix = g.toMatrix * h.toMatrix := by
  ext i j
  rw [toMatrix_apply, mul, get_ofFn, foldl_add_finRange, Matrix.mul_apply]
  rfl

@[simp] theorem toMatrix_transpose (g : Grid r c) :
    g.transpose.toMatrix = g.toMatrix.transpose := by
  ext j i
  rw [toMatrix_apply, transpose, get_ofFn, Matrix.transpose_apply, toMatrix_apply]

theorem toMatrix_beside_left (g : Grid r c) (h : Grid r d) (i : Fin r) (j : Fin c) :
    (g.beside h).toMatrix i (Fin.castAdd d j) = g.toMatrix i j := by
  rw [toMatrix_apply, beside, get_ofFn, Fin.addCases_left, toMatrix_apply]

theorem toMatrix_beside_right (g : Grid r c) (h : Grid r d) (i : Fin r) (j : Fin d) :
    (g.beside h).toMatrix i (Fin.natAdd c j) = h.toMatrix i j := by
  rw [toMatrix_apply, beside, get_ofFn, Fin.addCases_right, toMatrix_apply]

end Grid

/-- The entries of a matrix with as many rows as columns. -/
def RatMatrix.toSquare (m : RatMatrix) (square : m.rows = m.cols) :
    Matrix (Fin m.rows) (Fin m.rows) ℚ :=
  Matrix.of fun i j => m.grid.get i (j.cast square)

end WorkedAlgebra
