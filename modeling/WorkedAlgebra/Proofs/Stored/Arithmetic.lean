import WorkedAlgebra.Proofs.Stored.Basic
import WorkedAlgebra.Stored.Arithmetic
import WorkedAlgebra.Method.ScalarArithmetic

/-!
# Arithmetic in storage agrees with arithmetic on matrices

* **`Stored.entrywise_stored`**, **`Stored.multiply_stored`**, **`Stored.scale_stored`**: on the
  stored forms of matrices, an operation in storage gives the stored form of what the operation on
  matrices gives, fault for fault and step for step.
-/

namespace WorkedAlgebra.Stored

open StoredMatrix (get_entries make_entries)

/-! ## Scalars -/

section Scalars

variable (a b : Scalar)

theorem scalarPlus_eq : scalarPlus a b = storedResult (ScalarArithmetic.plus a b) := rfl

theorem scalarMinus_eq : scalarMinus a b = storedResult (ScalarArithmetic.minus a b) := rfl

theorem scalarMultiply_eq : scalarMultiply a b = storedResult (ScalarArithmetic.multiply a b) := rfl

theorem scalarDivide_eq : scalarDivide a b = storedResult (ScalarArithmetic.divide a b) := by
  unfold scalarDivide combine ScalarArithmetic.divide
  by_cases h : b.value = 0
  · simp only [if_pos h]
    rfl
  · simp only [if_neg h, reciprocal_eq_ok h]
    rfl

end Scalars

/-! ## Matrices -/

section Cells

variable {α : Type} {r c : ℕ}

theorem cells_eq_ok {cell : ℕ → ℕ → Except StoredFault α} {f : Fin r → Fin c → α}
    (h : ∀ (i : Fin r) (j : Fin c), cell i j = .ok (f i j)) :
    cells r c cell = .ok ((List.finRange r).map fun i => (List.finRange c).map (f i)) :=
  mapM_range fun i => mapM_range (h i)

theorem gridText_eq_ok {cell : ℕ → ℕ → Except StoredFault String} {f : Fin r → Fin c → String}
    (h : ∀ (i : Fin r) (j : Fin c), cell i j = .ok (f i j)) :
    gridText r c cell = .ok (MatrixArithmetic.gridText r c f) := by
  unfold gridText
  rw [cells_eq_ok h]
  rfl

end Cells

theorem get_bind {α : Type} {r c : ℕ} (g : Grid r c) (display : DisplayMode) (i : Fin r)
    (j : Fin c) (f : ℚ → Except StoredFault α) :
    ((⟨r, c, g.entries, display⟩ : StoredMatrix).get i j >>= f) = f (g.get i j) := by
  rw [get_entries, bind_ok]

/-- **Sums and differences in storage.** -/
theorem entrywise_stored (op : Operator) (verb : String) (f : ℚ → ℚ → ℚ) (a b : RatMatrix) :
    entrywise op verb f a.stored b.stored =
      storedResult (MatrixArithmetic.entrywise op verb f a b) := by
  obtain ⟨r, c, g, da, hr, hc⟩ := a
  obtain ⟨r', c', g', db, hr', hc'⟩ := b
  by_cases h : r = r' ∧ c = c'
  · obtain ⟨rfl, rfl⟩ := h
    have hmake := make_entries (Grid.ofFn fun i j => f (g.get i j) (g'.get i j))
      (.resolve [da, db]) hr hc
    unfold entrywise MatrixArithmetic.entrywise
    rw [dif_pos ⟨rfl, rfl⟩]
    refine (if_pos ⟨rfl, rfl⟩).trans ?_
    simp only [RatMatrix.stored, Grid.zipWith_entries, bind_ok, hmake]
    rw [gridText_eq_ok fun i j => by rw [get_bind, get_bind]; rfl]
    rfl
  · unfold entrywise MatrixArithmetic.entrywise
    rw [dif_neg h]
    exact if_neg h

theorem plus_stored (a b : RatMatrix) :
    plus a.stored b.stored = storedResult (MatrixArithmetic.plus a b) :=
  entrywise_stored _ _ _ a b

theorem minus_stored (a b : RatMatrix) :
    minus a.stored b.stored = storedResult (MatrixArithmetic.minus a b) :=
  entrywise_stored _ _ _ a b

theorem dot_eq_ok {n k d : ℕ} (g : Grid n k) (h : Grid k d) (da db : DisplayMode) (i : Fin n)
    (j : Fin d) :
    dot ⟨n, k, g.entries, da⟩ ⟨k, d, h.entries, db⟩ i j = .ok ((g.mul h).get i j) := by
  unfold Grid.mul
  rw [Grid.get_ofFn]
  exact foldlM_range (fun sum l => by rw [get_bind, get_bind]; rfl) 0

/-- **Products in storage.** -/
theorem multiply_stored (a b : RatMatrix) :
    multiply a.stored b.stored = storedResult (MatrixArithmetic.multiply a b) := by
  obtain ⟨n, k, g, da, hn, hk⟩ := a
  obtain ⟨k', d, g', db, hk', hd⟩ := b
  by_cases h : k = k'
  · obtain rfl := h
    have hright : (Grid.ofFn fun l j => g'.get (l.cast rfl) j) = g' := by
      ext l j
      rw [Grid.get_ofFn, Fin.cast_eq_self]
    have hsums : (cells n d (dot ⟨n, k, g.entries, da⟩ ⟨k, d, g'.entries, db⟩)) =
        .ok (g.mul g').toRows :=
      cells_eq_ok (dot_eq_ok g g' da db)
    have hmake := make_entries (g.mul g') (.resolve [da, db]) hn hd
    unfold multiply MatrixArithmetic.multiply
    rw [dif_pos rfl, hright]
    refine (if_pos rfl).trans ?_
    simp only [RatMatrix.stored, hsums, bind_ok]
    rw [← Grid.entries, hmake, bind_ok, gridText_eq_ok fun i j => by
      rw [mapM_range fun l => by rw [get_bind, get_bind]; rfl]
      rfl]
    rfl
  · unfold multiply MatrixArithmetic.multiply
    rw [dif_neg h]
    exact if_neg h

theorem scale_stored (side : MatrixArithmetic.Side) (s : Scalar) (a : RatMatrix) :
    scale side s a.stored = storedResult (MatrixArithmetic.scale side s a) := by
  obtain ⟨r, c, g, d, hr, hc⟩ := a
  have hmake := make_entries (Grid.ofFn fun i j => s.value * g.get i j)
    (.resolve [s.display, d]) hr hc
  unfold scale MatrixArithmetic.scale
  simp only [RatMatrix.stored, Grid.map_entries, hmake, bind_ok]
  rw [gridText_eq_ok fun i j => by rw [get_bind]; rfl]
  cases side <;> rfl

theorem transpose_stored (a : RatMatrix) :
    transpose a.stored = storedResult (MatrixArithmetic.transpose a) := by
  obtain ⟨r, c, g, d, hr, hc⟩ := a
  have hturned : cells c r (fun j i => (⟨r, c, g.entries, d⟩ : StoredMatrix).get i j) =
      .ok g.transpose.toRows := by
    rw [Grid.transpose, Grid.toRows_ofFn]
    exact cells_eq_ok fun j i => get_entries g d i j
  have hmake := make_entries g.transpose (.resolve [d]) hc hr
  unfold transpose
  simp only [RatMatrix.stored, hturned, bind_ok]
  rw [← Grid.entries, hmake]
  rfl

end WorkedAlgebra.Stored
