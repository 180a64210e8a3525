import Mathlib.Algebra.BigOperators.Group.List.Lemmas
import Mathlib.Data.List.FinRange
import Mathlib.Data.Rat.Defs
import WorkedAlgebra.Value.RatMatrix

/-!
# Entries of a grid as lists

* **`Grid.getElem?_entries`**, **`Grid.eq_entries`**: the entries of a grid by their places among
  all of them.
-/

namespace WorkedAlgebra

namespace Grid

variable {r c : ℕ} (g : Grid r c)

@[simp] theorem length_row (i : Fin r) : (g.row i).length = c := by
  simp [row]

@[simp] theorem length_toRows : g.toRows.length = r := by
  simp [toRows]

@[simp] theorem getElem?_row (i : Fin r) (j : Fin c) : (g.row i)[j.val]? = some (g.get i j) := by
  simp [row]

@[simp] theorem getElem?_toRows (i : Fin r) : g.toRows[i.val]? = some (g.row i) := by
  simp [toRows]

theorem row_ofFn (f : Fin r → Fin c → ℚ) (i : Fin r) :
    (ofFn f).row i = (List.finRange c).map (f i) := by
  simp [row]

theorem toRows_ofFn (f : Fin r → Fin c → ℚ) :
    (ofFn f).toRows = (List.finRange r).map fun i => (List.finRange c).map (f i) := by
  simp [toRows, row_ofFn]

theorem row_eq_of_get {g h : Grid r c} {i k : Fin r} (H : ∀ j, g.get i j = h.get k j) :
    g.row i = h.row k := by
  unfold row
  exact List.map_congr_left fun j _ => H j

theorem toRows_set {g h : Grid r c} {i : Fin r} (H : ∀ a ≠ i, h.row a = g.row a) :
    g.toRows.set i (h.row i) = h.toRows := by
  refine List.ext_getElem? fun k => ?_
  by_cases hk : k < r
  · have hg := g.getElem?_toRows ⟨k, hk⟩
    have hh := h.getElem?_toRows ⟨k, hk⟩
    rw [List.getElem?_set, hg, hh]
    by_cases hi : i.val = k
    · obtain rfl : i = ⟨k, hk⟩ := Fin.ext hi
      simp [hk]
    · have hne : (⟨k, hk⟩ : Fin r) ≠ i := fun h => hi (congrArg Fin.val h).symm
      rw [if_neg hi, H _ hne]
  · rw [List.getElem?_eq_none (by simp; omega), List.getElem?_eq_none (by simp; omega)]

theorem map_length_toRows : g.toRows.map List.length = List.replicate r c := by
  rw [List.eq_replicate_iff]
  simp [toRows]

@[simp] theorem length_entries : g.entries.length = r * c := by
  rw [entries, List.length_flatten, map_length_toRows, List.sum_replicate_nat]

/-- **A row is found between the places where it starts and ends.** -/
theorem take_drop_entries (i : Fin r) :
    (g.entries.take ((i.val + 1) * c)).drop (i.val * c) = g.row i := by
  have hi : i.val < g.toRows.length := by simp
  have h := List.drop_take_succ_flatten_eq_getElem g.toRows i.val hi
  have hle : i.val + 1 ≤ r := i.isLt
  rw [map_length_toRows, List.take_replicate, List.take_replicate, List.sum_replicate_nat,
    List.sum_replicate_nat, Nat.min_eq_left hle, Nat.min_eq_left (Nat.le_of_succ_le hle)] at h
  rw [entries, h]
  have hr := g.getElem?_toRows i
  rw [List.getElem?_eq_getElem hi] at hr
  exact Option.some.inj hr

/-- **An entry is found at its row times the width, plus its column.** -/
theorem getElem?_entries (i : Fin r) (j : Fin c) :
    g.entries[i.val * c + j.val]? = some (g.get i j) := by
  have hj : i.val * c + j.val < (i.val + 1) * c := by
    have := j.isLt
    rw [Nat.succ_mul]
    omega
  rw [← getElem?_row, ← take_drop_entries, List.getElem?_drop, List.getElem?_take_of_lt hj]

/-- **A list with the entries of a grid in their places is the list of its entries.** -/
theorem eq_entries {l : List ℚ} (size : l.length = r * c)
    (h : ∀ (i : Fin r) (j : Fin c), l[i.val * c + j.val]? = some (g.get i j)) :
    l = g.entries := by
  refine List.ext_getElem? fun k => ?_
  by_cases hk : k < r * c
  · -- the place is a row times the width, plus a column
    have hc : 0 < c := Nat.pos_of_mul_pos_left (Nat.zero_lt_of_lt hk)
    have hi : k / c < r := Nat.div_lt_of_lt_mul (by rwa [Nat.mul_comm])
    have hj : k % c < c := Nat.mod_lt k hc
    have hkey : k / c * c + k % c = k := by rw [Nat.mul_comm]; exact Nat.div_add_mod k c
    have h₁ := h ⟨k / c, hi⟩ ⟨k % c, hj⟩
    have h₂ := g.getElem?_entries ⟨k / c, hi⟩ ⟨k % c, hj⟩
    rw [hkey] at h₁ h₂
    rw [h₁, h₂]
  · rw [List.getElem?_eq_none (by omega), List.getElem?_eq_none (by rw [length_entries]; omega)]

theorem entries_ofEntries (l : List ℚ) (size : l.length = r * c) :
    (ofEntries l size : Grid r c).entries = l := by
  refine (eq_entries _ size fun i j => ?_).symm
  rw [ofEntries, get_ofFn, List.get_eq_getElem, List.getElem?_eq_getElem]

theorem ofEntries_entries (size : g.entries.length = r * c) : ofEntries g.entries size = g := by
  ext i j
  have h := g.getElem?_entries i j
  rw [ofEntries, get_ofFn, List.get_eq_getElem]
  exact (List.getElem?_eq_some_iff.mp h).2

theorem entries_injective : Function.Injective (entries : Grid r c → List ℚ) := by
  intro g h hgh
  ext i j
  have hg := g.getElem?_entries i j
  rw [hgh, h.getElem?_entries i j] at hg
  exact (Option.some.inj hg).symm

theorem zipWith_entries (f : ℚ → ℚ → ℚ) (h : Grid r c) :
    List.zipWith f g.entries h.entries = (ofFn fun i j => f (g.get i j) (h.get i j)).entries := by
  refine eq_entries _ (by simp) fun i j => ?_
  rw [List.getElem?_zipWith, getElem?_entries, getElem?_entries, get_ofFn]

theorem map_entries (f : ℚ → ℚ) :
    g.entries.map f = (ofFn fun i j => f (g.get i j)).entries := by
  refine eq_entries _ (by simp) fun i j => ?_
  rw [List.getElem?_map, getElem?_entries, get_ofFn]
  rfl

theorem toRows_ofRows {c : ℕ} (rows : List (List ℚ)) (even : ∀ row ∈ rows, row.length = c) :
    (ofRows rows even).toRows = rows := by
  refine List.ext_getElem (by simp) fun i hi hi' => ?_
  refine List.ext_getElem (by simp [toRows, even]) fun j hj hj' => ?_
  simp [toRows, row, ofRows]

/-! ## Grids side by side -/

theorem finRange_add (c d : ℕ) : List.finRange (c + d) =
    (List.finRange c).map (Fin.castAdd d) ++ (List.finRange d).map (Fin.natAdd c) := by
  refine List.map_injective_iff.mpr Fin.val_injective ?_
  have hd : (List.range d).map (c + ·) = (List.finRange d).map fun j => c + j.val := by
    rw [← List.map_coe_finRange_eq_range, List.map_map]
    rfl
  rw [List.map_coe_finRange_eq_range, List.range_add, hd, ← List.map_coe_finRange_eq_range]
  simp [Function.comp_def]

theorem row_beside {d : ℕ} (g : Grid r c) (h : Grid r d) (i : Fin r) :
    (g.beside h).row i = g.row i ++ h.row i := by
  simp [row, finRange_add, beside, Function.comp_def]

theorem drop_row {d : ℕ} (g : Grid r (c + d)) (i : Fin r) :
    (g.row i).drop c = (List.finRange d).map fun j => g.get i (Fin.natAdd c j) := by
  unfold row
  rw [finRange_add, List.map_append, List.drop_left' (by simp)]
  simp [Function.comp_def]

end Grid

/-! ## Matrices of rows -/

namespace RatMatrix

variable (m : RatMatrix)

theorem length_of_mem_toRows {r c : ℕ} {g : Grid r c} {row : List ℚ} (h : row ∈ g.toRows) :
    row.length = c := by
  obtain ⟨i, -, rfl⟩ := List.mem_map.mp h
  exact g.length_row i

theorem widthOf_toRows : widthOf m.grid.toRows = m.cols := by
  have h := m.grid.getElem?_toRows ⟨0, m.rows_pos⟩
  unfold widthOf
  rw [List.head?_eq_getElem?, h]
  simp

/-- **A matrix is determined by its rows and its mode.** -/
theorem ext_toRows {m n : RatMatrix} (h : m.grid.toRows = n.grid.toRows)
    (hd : m.display = n.display) : m = n := by
  have hrows : m.rows = n.rows := by
    rw [← m.grid.length_toRows, h, n.grid.length_toRows]
  have hcols : m.cols = n.cols := by
    rw [← m.widthOf_toRows, h, n.widthOf_toRows]
  obtain ⟨r, c, g, d, hr, hc⟩ := m
  obtain ⟨r', c', g', d', hr', hc'⟩ := n
  obtain rfl : r = r' := hrows
  obtain rfl : c = c' := hcols
  obtain rfl : d = d' := hd
  obtain rfl : g = g' := Grid.entries_injective (congrArg List.flatten h)
  rfl

/-- **A matrix is made from its rows.** -/
theorem ofRows_toRows : ofRows m.grid.toRows m.display = .ok m := by
  have even : ∀ row ∈ m.grid.toRows, row.length = widthOf m.grid.toRows := by
    intro row hrow
    rw [widthOf_toRows, length_of_mem_toRows hrow]
  have size : 0 < m.grid.toRows.length ∧ 0 < widthOf m.grid.toRows := by
    rw [widthOf_toRows, Grid.length_toRows]
    exact ⟨m.rows_pos, m.cols_pos⟩
  unfold ofRows
  rw [dif_pos even, dif_pos size]
  exact congrArg Except.ok (ext_toRows (Grid.toRows_ofRows _ even) rfl)

end RatMatrix
end WorkedAlgebra
