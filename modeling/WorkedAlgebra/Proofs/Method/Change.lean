import WorkedAlgebra.Proofs.Method.Sweep

/-!
# Every operation changes the grid

An elimination records no operation without an effect (**`Reduction.changes_reduce`**).
-/

namespace WorkedAlgebra

namespace RowOp

variable {r c : ℕ}

/-- **Every operation of a list changes the grid that it is applied to.** -/
def Changes : Grid r c → List (RowOp r) → Prop
  | _, [] => True
  | g, op :: ops => op.apply g ≠ g ∧ Changes (op.apply g) ops

theorem changes_append (g : Grid r c) (ops ops' : List (RowOp r)) :
    Changes g (ops ++ ops') ↔ Changes g ops ∧ Changes (applyAll ops g) ops' := by
  induction ops generalizing g with
  | nil => simp [Changes, applyAll]
  | cons op ops ih =>
    rw [List.cons_append, Changes, Changes, ih, and_assoc]
    rfl

theorem apply_ne {op : RowOp r} {g : Grid r c} {i : Fin r} {j : Fin c}
    (h : (op.apply g).get i j ≠ g.get i j) : op.apply g ≠ g :=
  fun heq => h (by rw [heq])

end RowOp

namespace Reduction

variable {r c : ℕ}

/-! ## One column -/

theorem zero_above_found {g : Grid r c} {top : ℕ} {col : Fin c} {found : Fin r}
    (h : pivotRow? g top col = some found) {i : Fin r} (htop : top ≤ i.val) (hi : i < found) :
    g.get i col = 0 := by
  obtain ⟨-, above, below, hsplit, habove⟩ := List.find?_eq_some_iff_append.mp h
  have hsorted : (above ++ found :: below).Pairwise (· < ·) := by
    rw [← hsplit]
    exact List.pairwise_lt_finRange r
  have hmem : i ∈ above := by
    have hi' : i ∈ above ++ found :: below := by
      rw [← hsplit]
      exact List.mem_finRange i
    rcases List.mem_append.mp hi' with hi' | hi'
    · exact hi'
    rcases List.mem_cons.mp hi' with rfl | hi'
    · exact absurd hi (lt_irrefl _)
    · have hlt := (List.pairwise_cons.mp (List.pairwise_append.mp hsorted).2.1).1 i hi'
      exact absurd hi (not_lt_of_gt hlt)
  simpa [htop] using habove i hmem

theorem changes_raise {g : Grid r c} {p found : Fin r} {col : Fin c}
    (hq : g.get found col ≠ 0) (hp : found ≠ p → g.get p col = 0) :
    RowOp.Changes g (raise p found) := by
  unfold raise
  by_cases hf : found = p
  · rw [if_pos hf]
    trivial
  · rw [if_neg hf]
    refine ⟨RowOp.apply_ne (i := p) (j := col) ?_, trivial⟩
    rw [RowOp.get_apply_swap, if_pos rfl, hp hf]
    exact hq

theorem changes_normalize {g : Grid r c} {p : Fin r} {col : Fin c} (hq : g.get p col ≠ 0) :
    RowOp.Changes g (normalize p (g.get p col)) := by
  unfold normalize
  by_cases h1 : g.get p col = 1
  · rw [if_pos h1]
    trivial
  · rw [if_neg h1]
    refine ⟨RowOp.apply_ne (i := p) (j := col) ?_, trivial⟩
    rw [RowOp.get_apply_scale, if_pos rfl, inv_mul_cancel₀ hq]
    exact Ne.symm h1

theorem changes_clearRows {g : Grid r c} {f : Fin r → ℚ} {p : Fin r} {col : Fin c}
    (hp : g.get p col = 1) {rows : List (Fin r)} (hn : rows.Nodup)
    (hf : ∀ i ∈ rows, g.get i col = f i) : RowOp.Changes g (clearRows f p rows) := by
  induction rows generalizing g with
  | nil => trivial
  | cons i rows ih =>
    obtain ⟨hi, hn⟩ := List.nodup_cons.mp hn
    by_cases hz : i = p ∨ f i = 0
    · have hc : clearRows f p (i :: rows) = clearRows f p rows := by
        rw [clearRows, List.filterMap_cons, if_pos hz, clearRows]
      rw [hc]
      exact ih hp hn fun j hj => hf j (List.mem_cons_of_mem i hj)
    · have hc : clearRows f p (i :: rows) = .subtract i (f i) p :: clearRows f p rows := by
        rw [clearRows, List.filterMap_cons, if_neg hz, clearRows]
      rw [not_or] at hz
      rw [hc]
      refine ⟨RowOp.apply_ne (i := i) (j := col) ?_, ih ?_ hn fun j hj => ?_⟩
      · -- the row becomes zero in the column
        rw [RowOp.get_apply_subtract, if_pos rfl, hp, hf i List.mem_cons_self, mul_one, sub_self]
        exact Ne.symm hz.2
      · rw [RowOp.get_apply_subtract, if_neg (Ne.symm hz.1), hp]
      · have hji : j ≠ i := fun h => hi (h ▸ hj)
        rw [RowOp.get_apply_subtract, if_neg hji, hf j (List.mem_cons_of_mem i hj)]

/-- **Every operation that places a pivot changes the grid.** -/
theorem changes_pivotOps {g : Grid r c} {p found : Fin r} {col : Fin c}
    (hq : g.get found col ≠ 0) (hp : found ≠ p → g.get p col = 0) :
    RowOp.Changes g (pivotOps g p found col) := by
  unfold pivotOps
  have hraise : (RowOp.applyAll (raise p found) g).get p col = g.get found col := by
    rw [get_applyAll_raise, Equiv.swap_apply_left]
  have hone :
      (RowOp.applyAll (raise p found ++ normalize p (g.get found col)) g).get p col = 1 := by
    rw [RowOp.applyAll_append, get_applyAll_normalize, if_pos rfl, hraise, inv_mul_cancel₀ hq]
  refine (RowOp.changes_append _ _ _).mpr ⟨(RowOp.changes_append _ _ _).mpr
    ⟨changes_raise hq hp, ?_⟩, changes_clearRows hone (List.nodup_finRange r) fun i _ => rfl⟩
  rw [← hraise]
  exact changes_normalize (by rwa [hraise])

/-! ## All columns -/

theorem changes_column {g : Grid r c} {s : Reduction r c} (hs : Tallied g s)
    (h : RowOp.Changes g s.ops) (col : Fin c) : RowOp.Changes g (s.column col).ops := by
  unfold column
  by_cases hlt : s.pivots.length < r
  · rw [dif_pos hlt]
    cases hfound : pivotRow? s.grid s.pivots.length col with
    | none => exact h
    | some found =>
      set p : Fin r := ⟨s.pivots.length, hlt⟩ with hp
      obtain ⟨hle, hq⟩ := pivotRow?_eq_some hfound
      have hzero : found ≠ p → s.grid.get p col = 0 := fun hne =>
        zero_above_found hfound le_rfl (lt_of_le_of_ne hle (Ne.symm hne))
      have hops := ops_placePivot s p found col
      dsimp only
      rw [hops, RowOp.changes_append, ← hs.grid_eq]
      exact ⟨h, changes_pivotOps hq hzero⟩
  · rw [dif_neg hlt]
    exact h

/-- **Every operation of an elimination changes the grid.** -/
theorem changes_reduce (columns : List (Fin c)) (g : Grid r c) :
    RowOp.Changes g (reduce columns g).ops := by
  have h : ∀ s, Tallied g s → RowOp.Changes g s.ops →
      RowOp.Changes g (columns.foldl Reduction.column s).ops := by
    induction columns with
    | nil => exact fun s _ hs => hs
    | cons col columns ih => exact fun s ht hs => ih _ (ht.column col) (changes_column ht hs col)
  exact h _ (tallied_start g) trivial

end Reduction
end WorkedAlgebra
