import Mathlib.LinearAlgebra.Matrix.NonsingularInverse
import Mathlib.LinearAlgebra.Matrix.Swap
import Mathlib.LinearAlgebra.Matrix.Transvection
import WorkedAlgebra.Method.RowOp
import WorkedAlgebra.Proofs.Value.Grid

/-!
# Row operations as matrices

* **`RowOp.toMatrix_apply`**, **`RowOp.IsElementary.det_matrix`**: a row operation multiplies by its
  matrix, and its determinant.
* **`RowOp.toMatrix_applyAll`**, `RowOp.det_multiplier` — the same for a list of operations.
-/

namespace WorkedAlgebra.RowOp

variable {r c : ℕ}

/-! ## Entries after an operation -/

theorem get_apply_swap (i j : Fin r) (g : Grid r c) (a : Fin r) (b : Fin c) :
    ((swap i j).apply g).get a b =
      if a = i then g.get j b else if a = j then g.get i b else g.get a b := by
  rw [apply, Grid.get_ofFn]

theorem get_apply_scale (i : Fin r) (q : ℚ) (g : Grid r c) (a : Fin r) (b : Fin c) :
    ((scale i q).apply g).get a b = if a = i then q * g.get i b else g.get a b := by
  rw [apply, Grid.get_ofFn]

theorem get_apply_subtract (i j : Fin r) (q : ℚ) (g : Grid r c) (a : Fin r) (b : Fin c) :
    ((subtract i q j).apply g).get a b =
      if a = i then g.get i b - q * g.get j b else g.get a b := by
  rw [apply, Grid.get_ofFn]

/-! ## One operation -/

/-- The matrix that a row operation multiplies by. -/
def matrix : RowOp r → Matrix (Fin r) (Fin r) ℚ
  | swap i j => Matrix.swap ℚ i j
  | scale i q => Matrix.diagonal (Function.update 1 i q)
  | subtract i q j => Matrix.transvection i j (-q)

/-- **A row operation multiplies by its matrix.** -/
theorem toMatrix_apply (op : RowOp r) (g : Grid r c) :
    (op.apply g).toMatrix = op.matrix * g.toMatrix := by
  ext a b
  rw [Grid.toMatrix_apply]
  cases op with
  | swap i j =>
    rw [get_apply_swap, matrix]
    by_cases hi : a = i
    · rw [if_pos hi, hi, Matrix.swap_mul_apply_left, Grid.toMatrix_apply]
    rw [if_neg hi]
    by_cases hj : a = j
    · rw [if_pos hj, hj, Matrix.swap_mul_apply_right, Grid.toMatrix_apply]
    · rw [if_neg hj, Matrix.swap_mul_of_ne hi hj, Grid.toMatrix_apply]
  | scale i q =>
    rw [get_apply_scale, matrix, Matrix.diagonal_mul, Grid.toMatrix_apply]
    by_cases hi : a = i
    · rw [if_pos hi, hi, Function.update_self]
    · rw [if_neg hi, Function.update_of_ne hi, Pi.one_apply, one_mul]
  | subtract i q j =>
    rw [get_apply_subtract, matrix]
    by_cases hi : a = i
    · rw [if_pos hi, hi, Matrix.transvection_mul_apply_same, Grid.toMatrix_apply,
        Grid.toMatrix_apply, neg_mul, sub_eq_add_neg]
    · rw [if_neg hi, Matrix.transvection_mul_apply_of_ne i j a b hi, Grid.toMatrix_apply]

/-- A row operation is **elementary** if it exchanges two different rows, scales by a number that
is neither zero nor one, or subtracts a nonzero multiple of another row. -/
def IsElementary : RowOp r → Prop
  | swap i j => i ≠ j
  | scale _ q => q ≠ 0 ∧ q ≠ 1
  | subtract i q j => i ≠ j ∧ q ≠ 0

/-- What a row operation multiplies determinants by. -/
def factor : RowOp r → ℚ
  | swap _ _ => -1
  | scale _ q => q
  | subtract _ _ _ => 1

/-- **The determinant of an elementary operation.** -/
theorem IsElementary.det_matrix {op : RowOp r} (h : op.IsElementary) :
    op.matrix.det = op.factor := by
  cases op with
  | swap i j =>
    have hij : i ≠ j := h
    rw [matrix, factor, Matrix.swap, Matrix.det_permutation, Equiv.Perm.sign_swap hij]
    rfl
  | scale i q =>
    rw [matrix, factor, Matrix.det_diagonal, Finset.prod_update_of_mem (Finset.mem_univ i)]
    simp
  | subtract i q j => rw [matrix, factor, Matrix.det_transvection_of_ne i j h.1]

theorem IsElementary.factor_ne_zero {op : RowOp r} (h : op.IsElementary) : op.factor ≠ 0 := by
  cases op with
  | swap i j => exact neg_ne_zero.mpr one_ne_zero
  | scale i q => exact h.1
  | subtract i q j => exact one_ne_zero

/-! ## A list of operations -/

/-- The matrix that a list of row operations multiplies by. -/
def multiplier : List (RowOp r) → Matrix (Fin r) (Fin r) ℚ
  | [] => 1
  | op :: ops => multiplier ops * op.matrix

theorem toMatrix_applyAll (ops : List (RowOp r)) (g : Grid r c) :
    (applyAll ops g).toMatrix = multiplier ops * g.toMatrix := by
  induction ops generalizing g with
  | nil => rw [applyAll, List.foldl_nil, multiplier, Matrix.one_mul]
  | cons op ops ih =>
    rw [applyAll, List.foldl_cons, ← applyAll, ih, toMatrix_apply, multiplier, Matrix.mul_assoc]

theorem applyAll_append (ops ops' : List (RowOp r)) (g : Grid r c) :
    applyAll (ops ++ ops') g = applyAll ops' (applyAll ops g) := by
  rw [applyAll, applyAll, applyAll, List.foldl_append]

variable {ops : List (RowOp r)}

theorem det_multiplier (h : ∀ op ∈ ops, op.IsElementary) :
    (multiplier ops).det = (ops.map factor).prod := by
  induction ops with
  | nil => rw [multiplier, Matrix.det_one, List.map_nil, List.prod_nil]
  | cons op ops ih =>
    rw [multiplier, Matrix.det_mul, ih fun op' h' => h op' (List.mem_cons_of_mem _ h'),
      (h op List.mem_cons_self).det_matrix, List.map_cons, List.prod_cons, mul_comm]

theorem prod_factor_ne_zero (h : ∀ op ∈ ops, op.IsElementary) :
    (ops.map factor).prod ≠ 0 := by
  refine List.prod_ne_zero fun hz => ?_
  obtain ⟨op, hop, h₀⟩ := List.mem_map.mp hz
  exact (h op hop).factor_ne_zero h₀

theorem isUnit_multiplier (h : ∀ op ∈ ops, op.IsElementary) : IsUnit (multiplier ops) := by
  rw [Matrix.isUnit_iff_isUnit_det, det_multiplier h]
  exact (prod_factor_ne_zero h).isUnit

end WorkedAlgebra.RowOp
