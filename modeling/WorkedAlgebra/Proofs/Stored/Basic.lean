import WorkedAlgebra.Proofs.Loop
import WorkedAlgebra.Proofs.Value.Entries
import WorkedAlgebra.Stored.Basic

/-!
# Checks that pass

On the stored form of a matrix every check passes, and what is read is what the matrix holds.

* **`StoredMatrix.make_entries`**, **`StoredMatrix.ofRows_toRows`**: matrices made from entries and
  from rows.
-/

namespace WorkedAlgebra

theorem fetch_eq_ok {α : Type} {items : List α} {i : ℕ} {a : α} (h : items[i]? = some a) :
    fetch items i = .ok a := by
  unfold fetch
  rw [h]

theorem reciprocal_eq_ok {q : ℚ} (h : q ≠ 0) : reciprocal q = .ok q⁻¹ :=
  if_neg h

namespace StoredMatrix

/-! ## Reading -/

section Reading

variable (m : RatMatrix)

/-- **An entry is read where the grid holds it.** -/
theorem get_entries {r c : ℕ} (g : Grid r c) (display : DisplayMode) (i : Fin r) (j : Fin c) :
    (⟨r, c, g.entries, display⟩ : StoredMatrix).get i j = .ok (g.get i j) := by
  unfold get
  rw [if_pos ⟨i.isLt, j.isLt⟩]
  exact fetch_eq_ok (g.getElem?_entries i j)

theorem row_stored (i : Fin m.rows) : m.stored.row i = .ok (m.grid.row i) := by
  unfold row
  have hle : (i.val + 1) * m.cols ≤ m.grid.entries.length := by
    rw [Grid.length_entries]
    exact Nat.mul_le_mul_right _ i.isLt
  rw [← Grid.take_drop_entries]
  exact if_pos hle

theorem toRows_stored : m.stored.toRows = .ok m.grid.toRows :=
  mapM_range (row_stored m)

end Reading

/-! ## Making -/

section Making

variable {r c : ℕ} (g : Grid r c) (display : DisplayMode) (hr : 0 < r) (hc : 0 < c)

/-- **The entries of a grid make the matrix of the grid.** -/
theorem make_entries :
    make r c g.entries display = .ok (RatMatrix.mk r c g display hr hc).stored := by
  unfold make
  rw [if_neg (by omega), if_pos g.length_entries]
  rfl

theorem ofRows_toRows :
    ofRows g.toRows display = .ok (RatMatrix.mk r c g display hr hc).stored := by
  have hw : RatMatrix.widthOf g.toRows = c := by
    unfold RatMatrix.widthOf
    rw [List.head?_eq_getElem?, g.getElem?_toRows ⟨0, hr⟩]
    simp
  have hnone : g.toRows.findIdx? (fun row => row.length != c) = none := by
    rw [List.findIdx?_eq_none_iff]
    simp [Grid.toRows]
  unfold ofRows
  simp only [hw, hnone, Grid.length_toRows]
  exact make_entries g display hr hc

end Making

/-! ## Well-formed matrices -/

theorem stored_toMatrix (a : StoredMatrix) (h : a.WellFormed) : (a.toMatrix h).stored = a := by
  unfold toMatrix RatMatrix.stored
  dsimp only
  rw [Grid.entries_ofEntries]

theorem toMatrix_stored (m : RatMatrix) (h : m.stored.WellFormed) : m.stored.toMatrix h = m := by
  unfold toMatrix RatMatrix.stored
  dsimp only
  rw [Grid.ofEntries_entries]

/-- **A well-formed stored matrix stores a matrix.** -/
theorem WellFormed.exists_stored {a : StoredMatrix} (h : a.WellFormed) :
    ∃ m : RatMatrix, m.stored = a :=
  ⟨a.toMatrix h, stored_toMatrix a h⟩

end StoredMatrix

theorem RatMatrix.wellFormed_stored (m : RatMatrix) : m.stored.WellFormed where
  rows_pos := m.rows_pos
  cols_pos := m.cols_pos
  size := m.grid.length_entries

theorem Solution.stored_record (op : Operator) (inputs : List Value) (answer : Value)
    (steps : List Step) :
    (record op inputs answer steps).stored =
      .record op (inputs.map Value.stored) answer.stored (steps.map Step.stored) := by
  simp [record, StoredSolution.record, stored, Step.stored, Step.plain]

theorem exists_of_storedResult {r : Except MethodFault Solution} {s : StoredSolution}
    (h : storedResult r = .ok s) : ∃ t, r = .ok t ∧ s = t.stored := by
  cases r with
  | error fault => cases h
  | ok t =>
    cases h
    exact ⟨t, rfl, rfl⟩

end WorkedAlgebra
