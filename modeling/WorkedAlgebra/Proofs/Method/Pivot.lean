import WorkedAlgebra.Method.Reduction
import WorkedAlgebra.Proofs.Method.RowOperation

/-!
# One column of an elimination

* **`Reduction.column_cases`**: either a column is zero from the next free row on and nothing is
  done, or a pivot is placed in that row.
-/

namespace WorkedAlgebra.Reduction

variable {r c : ℕ}

/-! ## The search for a pivot -/

theorem pivotRow?_eq_some {g : Grid r c} {top : ℕ} {col : Fin c} {found : Fin r}
    (h : pivotRow? g top col = some found) : top ≤ found.val ∧ g.get found col ≠ 0 := by
  simpa using List.find?_some h

theorem pivotRow?_eq_none {g : Grid r c} {top : ℕ} {col : Fin c}
    (h : pivotRow? g top col = none) (i : Fin r) (hi : top ≤ i.val) : g.get i col = 0 := by
  simpa [hi] using List.find?_eq_none.mp h i (List.mem_finRange i)

/-- **What an elimination does in one column.** Either the column is zero from the next free row on,
or a pivot from a later row is placed in that row. -/
theorem column_cases (s : Reduction r c) (col : Fin c) :
    (s.column col = s ∧ ∀ i : Fin r, s.pivots.length ≤ i.val → s.grid.get i col = 0) ∨
      ∃ p found : Fin r, p.val = s.pivots.length ∧ p ≤ found ∧ s.grid.get found col ≠ 0 ∧
        s.column col = s.placePivot p found col := by
  rw [column]
  by_cases h : s.pivots.length < r
  · rw [dif_pos h]
    cases hp : pivotRow? s.grid s.pivots.length col with
    | none => exact .inl ⟨rfl, pivotRow?_eq_none hp⟩
    | some found =>
      obtain ⟨hf, hne⟩ := pivotRow?_eq_some hp
      exact .inr ⟨⟨s.pivots.length, h⟩, found, rfl, hf, hne, rfl⟩
  · rw [dif_neg h]
    exact .inl ⟨rfl, fun i hi => absurd i.isLt (by omega)⟩

/-! ## Entries after a pivot was placed -/

theorem get_applyAll_raise (p found : Fin r) (g : Grid r c) (a : Fin r) (b : Fin c) :
    (RowOp.applyAll (raise p found) g).get a b = g.get (Equiv.swap p found a) b := by
  rw [raise, Equiv.swap_apply_def]
  by_cases hf : found = p
  · rw [if_pos hf, RowOp.applyAll, List.foldl_nil, hf]
    by_cases ha : a = p
    · rw [if_pos ha, ha]
    · rw [if_neg ha, if_neg ha]
  · rw [if_neg hf, RowOp.applyAll, List.foldl_cons, List.foldl_nil, RowOp.get_apply_swap]
    split_ifs <;> rfl

theorem get_applyAll_normalize (p : Fin r) (q : ℚ) (g : Grid r c) (a : Fin r) (b : Fin c) :
    (RowOp.applyAll (normalize p q) g).get a b =
      if a = p then q⁻¹ * g.get p b else g.get a b := by
  rw [normalize]
  by_cases hq : q = 1
  · rw [if_pos hq, RowOp.applyAll, List.foldl_nil, hq, inv_one, one_mul]
    by_cases ha : a = p
    · rw [if_pos ha, ha]
    · rw [if_neg ha]
  · rw [if_neg hq, RowOp.applyAll, List.foldl_cons, List.foldl_nil, RowOp.get_apply_scale]

/-- The subtractions of row `p` from the rows of a list, each as often as `f` says. -/
def clearRows (f : Fin r → ℚ) (p : Fin r) (rows : List (Fin r)) : List (RowOp r) :=
  rows.filterMap fun i => if i = p ∨ f i = 0 then none else some (.subtract i (f i) p)

theorem get_applyAll_clearRows (f : Fin r → ℚ) (p : Fin r) {rows : List (Fin r)}
    (hn : rows.Nodup) (g : Grid r c) (a : Fin r) (b : Fin c) :
    (RowOp.applyAll (clearRows f p rows) g).get a b =
      if a ≠ p ∧ a ∈ rows then g.get a b - f a * g.get p b else g.get a b := by
  induction rows generalizing g with
  | nil => simp [clearRows, RowOp.applyAll]
  | cons i rows ih =>
    obtain ⟨hi, hn⟩ := List.nodup_cons.mp hn
    by_cases hz : i = p ∨ f i = 0
    · -- nothing is subtracted from this row, or zero times
      have hc : clearRows f p (i :: rows) = clearRows f p rows := by
        rw [clearRows, List.filterMap_cons, if_pos hz, clearRows]
      rw [hc, ih hn]
      by_cases ha : a = i
      · subst ha
        rcases hz with rfl | hz
        · simp
        · simp [hi, hz]
      · simp [ha]
    · have hc : clearRows f p (i :: rows) = .subtract i (f i) p :: clearRows f p rows := by
        rw [clearRows, List.filterMap_cons, if_neg hz, clearRows]
      rw [not_or] at hz
      have hp : ((RowOp.subtract i (f i) p).apply g).get p b = g.get p b := by
        rw [RowOp.get_apply_subtract, if_neg (Ne.symm hz.1)]
      rw [hc, RowOp.applyAll, List.foldl_cons, ← RowOp.applyAll, ih hn, hp,
        RowOp.get_apply_subtract]
      by_cases ha : a = i
      · subst ha
        simp [hi, hz.1]
      · simp [ha]

theorem get_applyAll_clear (g : Grid r c) (p : Fin r) (col : Fin c) (a : Fin r) (b : Fin c) :
    (RowOp.applyAll (clear g p col) g).get a b =
      if a = p then g.get p b else g.get a b - g.get a col * g.get p b := by
  have h := get_applyAll_clearRows (fun i => g.get i col) p (List.nodup_finRange r) g a b
  rw [clearRows, ← clear] at h
  rw [h]
  by_cases ha : a = p
  · rw [if_pos ha, if_neg (fun h => h.1 ha), ha]
  · rw [if_neg ha, if_pos ⟨ha, List.mem_finRange a⟩]

theorem get_placePivot (s : Reduction r c) (p found : Fin r) (col : Fin c) (a : Fin r)
    (b : Fin c) :
    (s.placePivot p found col).grid.get a b =
      if a = p then (s.grid.get found col)⁻¹ * s.grid.get found b
      else s.grid.get (Equiv.swap p found a) b -
        s.grid.get (Equiv.swap p found a) col *
          ((s.grid.get found col)⁻¹ * s.grid.get found b) := by
  have ht : ∀ a b, (RowOp.applyAll (raise p found ++ normalize p (s.grid.get found col))
      s.grid).get a b = if a = p then (s.grid.get found col)⁻¹ * s.grid.get found b
        else s.grid.get (Equiv.swap p found a) b := by
    intro a b
    rw [RowOp.applyAll_append, get_applyAll_normalize, get_applyAll_raise, get_applyAll_raise,
      Equiv.swap_apply_left]
  change (RowOp.applyAll (clear (RowOp.applyAll (raise p found ++
    normalize p (s.grid.get found col)) s.grid) p col) (RowOp.applyAll (raise p found ++
      normalize p (s.grid.get found col)) s.grid)).get a b = _
  rw [get_applyAll_clear, ht, ht, ht, if_pos rfl]
  by_cases ha : a = p
  · rw [if_pos ha, if_pos ha]
  · rw [if_neg ha, if_neg ha, if_neg ha, if_neg ha]

variable {s : Reduction r c} {p found : Fin r} {col : Fin c}

/-- **The column of a pivot is cleared outside its row.** -/
theorem get_placePivot_pivot (hq : s.grid.get found col ≠ 0) (a : Fin r) :
    (s.placePivot p found col).grid.get a col = if a = p then 1 else 0 := by
  rw [get_placePivot, inv_mul_cancel₀ hq, mul_one, sub_self]

/-- **A column that is zero in both rows of an exchange stays as it is.** -/
theorem get_placePivot_of_zero {b : Fin c} (hp : s.grid.get p b = 0)
    (hf : s.grid.get found b = 0) (a : Fin r) :
    (s.placePivot p found col).grid.get a b = s.grid.get a b := by
  rw [get_placePivot, hf, mul_zero, mul_zero, sub_zero]
  by_cases ha : a = p
  · rw [if_pos ha, ha, hp]
  rw [if_neg ha]
  by_cases haf : a = found
  · rw [haf, Equiv.swap_apply_right, hp, hf]
  · rw [Equiv.swap_apply_of_ne_of_ne ha haf]

/-! ## The operations that place a pivot -/

/-- The operations that place a pivot from row `found` in row `p`. -/
def pivotOps (g : Grid r c) (p found : Fin r) (col : Fin c) : List (RowOp r) :=
  let up := raise p found ++ normalize p (g.get found col)
  up ++ clear (RowOp.applyAll up g) p col

theorem ops_placePivot (s : Reduction r c) (p found : Fin r) (col : Fin c) :
    (s.placePivot p found col).ops = s.ops ++ pivotOps s.grid p found col :=
  List.append_assoc _ _ _

theorem grid_placePivot (s : Reduction r c) (p found : Fin r) (col : Fin c) :
    (s.placePivot p found col).grid = RowOp.applyAll (pivotOps s.grid p found col) s.grid := by
  rw [pivotOps, RowOp.applyAll_append]
  rfl

theorem pivots_placePivot (s : Reduction r c) (p found : Fin r) (col : Fin c) :
    (s.placePivot p found col).pivots = s.pivots ++ [(col, s.grid.get found col)] := rfl

theorem pivotColumns_placePivot (s : Reduction r c) (p found : Fin r) (col : Fin c) :
    (s.placePivot p found col).pivotColumns = s.pivotColumns ++ [col] := by
  rw [pivotColumns, pivots_placePivot, List.map_append, List.map_singleton, ← pivotColumns]

theorem mem_clear {g : Grid r c} {op : RowOp r} (h : op ∈ clear g p col) :
    ∃ i, i ≠ p ∧ g.get i col ≠ 0 ∧ op = .subtract i (g.get i col) p := by
  obtain ⟨i, _, hi⟩ := List.mem_filterMap.mp h
  by_cases hz : i = p ∨ g.get i col = 0
  · rw [if_pos hz] at hi
    exact absurd hi (by simp)
  · rw [if_neg hz] at hi
    rw [not_or] at hz
    exact ⟨i, hz.1, hz.2, (Option.some.inj hi).symm⟩

/-- **The operations that place a pivot are elementary.** -/
theorem isElementary_of_mem_pivotOps {g : Grid r c} (hq : g.get found col ≠ 0) :
    ∀ op ∈ pivotOps g p found col, op.IsElementary := by
  intro op hop
  rw [pivotOps, List.mem_append, List.mem_append, raise, normalize] at hop
  rcases hop with (hop | hop) | hop
  · by_cases hf : found = p
    · rw [if_pos hf] at hop
      exact absurd hop (by simp)
    · rw [if_neg hf, List.mem_singleton] at hop
      rw [hop]
      exact Ne.symm hf
  · by_cases h1 : g.get found col = 1
    · rw [if_pos h1] at hop
      exact absurd hop (by simp)
    · rw [if_neg h1, List.mem_singleton] at hop
      rw [hop]
      exact ⟨inv_ne_zero hq, inv_ne_one.mpr h1⟩
  · obtain ⟨i, hi, hz, rfl⟩ := mem_clear hop
    exact ⟨hi, hz⟩

theorem prod_factor_clear (g : Grid r c) (p : Fin r) (col : Fin c) :
    ((clear g p col).map RowOp.factor).prod = 1 := by
  refine List.prod_eq_one fun q hq => ?_
  obtain ⟨op, hop, rfl⟩ := List.mem_map.mp hq
  obtain ⟨i, _, _, rfl⟩ := mem_clear hop
  rfl

theorem countP_isSwap_clear (g : Grid r c) (p : Fin r) (col : Fin c) :
    (clear g p col).countP RowOp.isSwap = 0 := by
  refine List.countP_eq_zero.mpr fun op hop => ?_
  obtain ⟨i, _, _, rfl⟩ := mem_clear hop
  exact Bool.false_ne_true

theorem prod_factor_pivotOps (g : Grid r c) (p found : Fin r) (col : Fin c) :
    ((pivotOps g p found col).map RowOp.factor).prod =
      (-1) ^ (pivotOps g p found col).countP RowOp.isSwap * (g.get found col)⁻¹ := by
  have hr : ((raise p found).map RowOp.factor).prod =
      (-1) ^ (raise p found).countP RowOp.isSwap := by
    rw [raise]
    by_cases hf : found = p
    · rw [if_pos hf]; rfl
    · rw [if_neg hf]; simp [RowOp.factor, RowOp.isSwap]
  have hn : ((normalize p (g.get found col)).map RowOp.factor).prod = (g.get found col)⁻¹ ∧
      (normalize p (g.get found col)).countP RowOp.isSwap = 0 := by
    rw [normalize]
    by_cases h1 : g.get found col = 1
    · rw [if_pos h1, h1]; simp
    · rw [if_neg h1]; simp [RowOp.factor, RowOp.isSwap]
  simp only [pivotOps, List.map_append, List.prod_append, List.countP_append, prod_factor_clear,
    countP_isSwap_clear, hr, hn.1, hn.2, mul_one, Nat.add_zero]

end WorkedAlgebra.Reduction
