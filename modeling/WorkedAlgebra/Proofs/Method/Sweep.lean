import Mathlib.LinearAlgebra.Matrix.Echelon.Basic
import WorkedAlgebra.Proofs.Method.Pivot

/-!
# An elimination as a whole

* **`Reduction.swept_reduce`**, **`Reduction.tallied_reduce`**: what holds of the entries and of the
  operations at the end of an elimination, because one more column keeps it.
* **`Reduction.Swept.isReducedRowEchelon`**: the grid is then in reduced row echelon form.
-/

namespace WorkedAlgebra.Reduction

variable {r c : ℕ}

/-- Row `i` received its pivot in column `j`. -/
def PivotAt (s : Reduction r c) (i : Fin r) (j : Fin c) : Prop :=
  s.pivotColumns[i.val]? = some j

theorem length_pivotColumns (s : Reduction r c) : s.pivotColumns.length = s.pivots.length :=
  List.length_map _

theorem PivotAt.lt {s : Reduction r c} {i : Fin r} {j : Fin c} (h : s.PivotAt i j) :
    i.val < s.pivots.length := by
  rw [← length_pivotColumns]
  exact (List.getElem?_eq_some_iff.mp h).1

theorem PivotAt.mem {s : Reduction r c} {i : Fin r} {j : Fin c} (h : s.PivotAt i j) :
    j ∈ s.pivotColumns :=
  List.mem_of_getElem? h

theorem exists_pivotAt {s : Reduction r c} {i : Fin r} (hi : i.val < s.pivots.length) :
    ∃ j, s.PivotAt i j := by
  rw [← length_pivotColumns] at hi
  exact ⟨_, List.getElem?_eq_getElem hi⟩

theorem pivotAt_placePivot {s : Reduction r c} {p found : Fin r} {col : Fin c}
    (hp : p.val = s.pivots.length) {i : Fin r} {j : Fin c} :
    (s.placePivot p found col).PivotAt i j ↔ s.PivotAt i j ∨ i = p ∧ j = col := by
  rw [PivotAt, PivotAt, pivotColumns_placePivot, List.getElem?_append, length_pivotColumns]
  by_cases hi : i.val < s.pivots.length
  · have hne : i ≠ p := fun h => by rw [h] at hi; omega
    rw [if_pos hi]
    simp [hne]
  · have hn : s.pivotColumns[i.val]? = none := by
      rw [List.getElem?_eq_none_iff, length_pivotColumns]
      omega
    rw [if_neg hi, hn, List.getElem?_singleton]
    by_cases hip : i = p
    · rw [if_pos (by rw [hip]; omega)]
      simp [hip, eq_comm]
    · rw [if_neg (fun h => hip (Fin.ext (by omega)))]
      simp [hip]

/-! ## Entries -/

/-- The entries of an elimination **once all columns before the `k`th were worked**. -/
structure Swept (s : Reduction r c) (k : ℕ) : Prop where
  height : s.pivots.length ≤ r
  /-- The pivots stand in columns that were worked. -/
  worked : ∀ j ∈ s.pivotColumns, j.val < k
  /-- The pivot columns increase from row to row. -/
  ordered : s.pivotColumns.Pairwise (· < ·)
  /-- The column of a pivot is one in its row and zero elsewhere. -/
  cleared : ∀ i j, s.PivotAt i j → ∀ a, s.grid.get a j = if a = i then 1 else 0
  /-- A row is zero to the left of its pivot. -/
  before : ∀ i j, s.PivotAt i j → ∀ b < j, s.grid.get i b = 0
  /-- The rows without a pivot are zero in the columns that were worked. -/
  below : ∀ i : Fin r, s.pivots.length ≤ i.val → ∀ b : Fin c, b.val < k → s.grid.get i b = 0

theorem swept_start (g : Grid r c) : (start g).Swept 0 where
  height := Nat.zero_le r
  worked := by simp [pivotColumns, start]
  ordered := List.Pairwise.nil
  cleared i j h := absurd h.lt (Nat.not_lt_zero _)
  before i j h := absurd h.lt (Nat.not_lt_zero _)
  below i _ b hb := absurd hb (Nat.not_lt_zero _)

namespace Swept

variable {s : Reduction r c} {k : ℕ} {col : Fin c}

theorem skip (hs : s.Swept k) (hcol : col.val = k)
    (hz : ∀ i : Fin r, s.pivots.length ≤ i.val → s.grid.get i col = 0) : s.Swept (k + 1) where
  height := hs.height
  worked j hj := Nat.lt_succ_of_lt (hs.worked j hj)
  ordered := hs.ordered
  cleared := hs.cleared
  before := hs.before
  below i hi b hb := by
    rcases Nat.lt_succ_iff_lt_or_eq.mp hb with hb | hb
    · exact hs.below i hi b hb
    · obtain rfl : b = col := Fin.ext (hb.trans hcol.symm)
      exact hz i hi

theorem placePivot (hs : s.Swept k) (hcol : col.val = k) {p found : Fin r}
    (hp : p.val = s.pivots.length) (hf : p ≤ found) (hq : s.grid.get found col ≠ 0) :
    (s.placePivot p found col).Swept (k + 1) := by
  have hlen : (s.placePivot p found col).pivots.length = s.pivots.length + 1 := by
    rw [pivots_placePivot, List.length_append, List.length_singleton]
  -- in the columns worked before, both rows of the exchange are zero, so nothing changes
  have hold : ∀ b : Fin c, b.val < k → ∀ a,
      (s.placePivot p found col).grid.get a b = s.grid.get a b := fun b hb a =>
    get_placePivot_of_zero (hs.below p hp.ge b hb)
      (hs.below found (hp.ge.trans hf) b hb) a
  refine ⟨?_, ?_, ?_, ?_, ?_, ?_⟩
  · rw [hlen, ← hp]
    exact p.isLt
  · intro j hj
    rw [pivotColumns_placePivot, List.mem_append, List.mem_singleton] at hj
    rcases hj with hj | rfl
    · exact Nat.lt_succ_of_lt (hs.worked j hj)
    · omega
  · rw [pivotColumns_placePivot, List.pairwise_append]
    refine ⟨hs.ordered, List.pairwise_singleton _ _, fun j hj b hb => ?_⟩
    rw [List.mem_singleton.mp hb, Fin.lt_def, hcol]
    exact hs.worked j hj
  · intro i j hij a
    rcases (pivotAt_placePivot hp).mp hij with hij | ⟨rfl, rfl⟩
    · rw [hold j (hs.worked j hij.mem), hs.cleared i j hij]
    · exact get_placePivot_pivot hq a
  · intro i j hij b hb
    rcases (pivotAt_placePivot hp).mp hij with hij | ⟨rfl, rfl⟩
    · have hj := hs.worked j hij.mem
      rw [hold b (lt_trans hb hj), hs.before i j hij b hb]
    · rw [Fin.lt_def, hcol] at hb
      rw [hold b hb, hs.below i hp.ge b hb]
  · intro i hi b hb
    rw [hlen] at hi
    rcases Nat.lt_succ_iff_lt_or_eq.mp hb with hb | hb
    · rw [hold b hb, hs.below i (by omega) b hb]
    · obtain rfl : b = col := Fin.ext (hb.trans hcol.symm)
      rw [get_placePivot_pivot hq, if_neg fun h => by rw [h] at hi; omega]

/-- **One more column keeps what holds of the entries.** -/
theorem column (hs : s.Swept k) (hcol : col.val = k) : (s.column col).Swept (k + 1) := by
  rcases column_cases s col with ⟨h, hz⟩ | ⟨p, found, hp, hf, hq, h⟩
  · rw [h]
    exact hs.skip hcol hz
  · rw [h]
    exact hs.placePivot hcol hp hf hq

theorem foldl_column (hs : s.Swept k) {columns : List (Fin c)} {n : ℕ}
    (hc : columns.map Fin.val = List.range' k n) :
    (columns.foldl Reduction.column s).Swept (k + n) := by
  induction columns generalizing s k n with
  | nil =>
    obtain rfl : n = 0 := by simpa using (congrArg List.length hc).symm
    exact hs
  | cons col columns ih =>
    cases n with
    | zero => exact absurd hc (by simp)
    | succ n =>
      rw [List.map_cons, List.range'_succ, List.cons.injEq] at hc
      rw [List.foldl_cons, show k + (n + 1) = k + 1 + n by omega]
      exact ih (hs.column hc.1) hc.2

end Swept

/-- **What holds of the entries at the end of an elimination.** -/
theorem swept_reduce {columns : List (Fin c)} {n : ℕ} (hc : columns.map Fin.val = List.range n)
    (g : Grid r c) : (reduce columns g).Swept n := by
  have h := (swept_start g).foldl_column (n := n) (by rw [hc, List.range_eq_range'])
  rwa [Nat.zero_add] at h

theorem swept_reduce_finRange (g : Grid r c) : (reduce (List.finRange c) g).Swept c :=
  swept_reduce List.map_coe_finRange_eq_range g

/-! ## Operations -/

/-- The operations **lead from the first grid to the present one**, and the pivots and the exchanges
account for what they multiply determinants by. -/
structure Tallied (g : Grid r c) (s : Reduction r c) : Prop where
  grid_eq : s.grid = RowOp.applyAll s.ops g
  elementary : ∀ op ∈ s.ops, op.IsElementary
  /-- Together with the pivots, they multiply determinants by the sign of the exchanges. -/
  factors : (s.ops.map RowOp.factor).prod * (s.pivots.map Prod.snd).prod = (-1) ^ s.swaps

theorem tallied_start (g : Grid r c) : Tallied g (start g) where
  grid_eq := rfl
  elementary := by simp [start]
  factors := by simp [start, swaps]

/-- **One more column keeps the account of the operations.** -/
theorem Tallied.column {g : Grid r c} {s : Reduction r c} (hs : Tallied g s) (col : Fin c) :
    Tallied g (s.column col) := by
  rcases column_cases s col with ⟨h, _⟩ | ⟨p, found, _, _, hq, h⟩
  · rw [h]
    exact hs
  rw [h]
  refine ⟨?_, ?_, ?_⟩
  · rw [grid_placePivot, ops_placePivot, RowOp.applyAll_append, ← hs.grid_eq]
  · intro op hop
    rw [ops_placePivot, List.mem_append] at hop
    rcases hop with hop | hop
    · exact hs.elementary op hop
    · exact isElementary_of_mem_pivotOps hq op hop
  · have hsw : (s.placePivot p found col).swaps =
        s.swaps + (pivotOps s.grid p found col).countP RowOp.isSwap := by
      rw [swaps, ops_placePivot, List.countP_append, ← swaps]
    rw [hsw, ops_placePivot, pivots_placePivot, List.map_append, List.prod_append, List.map_append,
      List.prod_append, prod_factor_pivotOps, List.map_singleton, List.prod_singleton, pow_add,
      ← hs.factors]
    field_simp

/-- **The account of the operations at the end of an elimination.** -/
theorem tallied_reduce (columns : List (Fin c)) (g : Grid r c) :
    Tallied g (reduce columns g) := by
  have h : ∀ s, Tallied g s → Tallied g (columns.foldl Reduction.column s) := by
    induction columns with
    | nil => exact fun s hs => hs
    | cons col columns ih => exact fun s hs => ih _ (hs.column col)
  exact h _ (tallied_start g)

theorem Tallied.toMatrix_eq {g : Grid r c} {s : Reduction r c} (hs : Tallied g s) :
    s.grid.toMatrix = RowOp.multiplier s.ops * g.toMatrix := by
  rw [hs.grid_eq, RowOp.toMatrix_applyAll]

theorem Tallied.isUnit_multiplier {g : Grid r c} {s : Reduction r c} (hs : Tallied g s) :
    IsUnit (RowOp.multiplier s.ops) :=
  RowOp.isUnit_multiplier hs.elementary

/-! ## Echelon form -/

namespace Swept

variable {s : Reduction r c}

theorem isLeadingEntry_iff (hs : s.Swept c) {i : Fin r} {j : Fin c} :
    s.grid.toMatrix.IsLeadingEntry i j ↔ s.PivotAt i j := by
  constructor
  · intro hl
    by_cases hi : i.val < s.pivots.length
    · obtain ⟨j', hij'⟩ := exists_pivotAt hi
      have hl' : s.grid.toMatrix.IsLeadingEntry i j' := by
        refine ⟨hs.before i j' hij', ?_⟩
        rw [Grid.toMatrix_apply, hs.cleared i j' hij', if_pos rfl]
        exact one_ne_zero
      rwa [hl.unique hl']
    · exact absurd (hs.below i (by omega) j j.isLt) hl.2
  · intro hij
    refine ⟨hs.before i j hij, ?_⟩
    rw [Grid.toMatrix_apply, hs.cleared i j hij, if_pos rfl]
    exact one_ne_zero

theorem pivotAt_lt (hs : s.Swept c) {i i' : Fin r} {j j' : Fin c} (h : s.PivotAt i j)
    (h' : s.PivotAt i' j') (hi : i < i') : j < j' := by
  obtain ⟨hl, rfl⟩ := List.getElem?_eq_some_iff.mp h
  obtain ⟨hl', rfl⟩ := List.getElem?_eq_some_iff.mp h'
  exact List.pairwise_iff_getElem.mp hs.ordered _ _ hl hl' hi

/-- **A grid of which all columns were worked is in reduced row echelon form.** -/
theorem isReducedRowEchelon (hs : s.Swept c) : s.grid.toMatrix.IsReducedRowEchelon where
  isRowEchelon := by
    intro i₁ i₂ hi j hj
    by_cases h₂ : i₂.val < s.pivots.length
    · obtain ⟨j₁, h₁⟩ := exists_pivotAt (s := s) (lt_trans hi h₂)
      obtain ⟨j₂, h₂⟩ := exists_pivotAt h₂
      -- the upper row is one at its pivot, so `j` is not beyond it
      have hle : j ≤ j₁ := by
        by_contra hlt
        have h := hj j₁ (not_le.mp hlt)
        rw [Grid.toMatrix_apply, hs.cleared i₁ j₁ h₁, if_pos rfl] at h
        exact one_ne_zero h
      exact hs.before i₂ j₂ h₂ j (lt_of_le_of_lt hle (hs.pivotAt_lt h₁ h₂ hi))
    · exact hs.below i₂ (by omega) j j.isLt
  eq_one := by
    intro i j hl
    rw [Grid.toMatrix_apply, hs.cleared i j (hs.isLeadingEntry_iff.mp hl), if_pos rfl]
  eq_zero := by
    intro i₁ i₂ j hi hl
    rw [Grid.toMatrix_apply, hs.cleared i₂ j (hs.isLeadingEntry_iff.mp hl), if_neg (ne_of_lt hi)]

/-! ## As many columns as rows -/

theorem map_val_pivotColumns (hs : s.Swept r) (full : s.pivots.length = r) :
    s.pivotColumns.map Fin.val = List.range r := by
  have hlt : (s.pivotColumns.map Fin.val).Pairwise (· < ·) := List.pairwise_map.mpr hs.ordered
  have hsub : s.pivotColumns.map Fin.val ⊆ List.range r := by
    intro b hb
    obtain ⟨j, hj, rfl⟩ := List.mem_map.mp hb
    exact List.mem_range.mpr (hs.worked j hj)
  have hle : (List.range r).length ≤ (s.pivotColumns.map Fin.val).length := by
    rw [List.length_range, List.length_map, length_pivotColumns, full]
  have hperm : (s.pivotColumns.map Fin.val).Perm (List.range r) :=
    (List.subperm_of_subset (hlt.imp Nat.ne_of_lt) hsub).perm_of_length_le hle
  exact hperm.eq_of_pairwise (fun a b _ _ h h' => absurd h (Nat.lt_asymm h')) hlt
    List.pairwise_lt_range

theorem get_of_full (hs : s.Swept r) (full : s.pivots.length = r) (a : Fin r) {j : Fin c}
    (hj : j.val < r) : s.grid.get a j = if a.val = j.val then 1 else 0 := by
  have hp : s.PivotAt ⟨j.val, hj⟩ j := by
    have h := congrArg (·[j.val]?) (hs.map_val_pivotColumns full)
    simp only [List.getElem?_map, List.getElem?_range hj, Option.map_eq_some_iff] at h
    obtain ⟨j', h', hv⟩ := h
    rwa [Fin.ext hv] at h'
  rw [hs.cleared _ j hp]
  exact if_congr Fin.ext_iff rfl rfl

theorem exists_row_eq_zero (hs : s.Swept r) (short : s.pivots.length < r) :
    ∃ i : Fin r, ∀ b : Fin c, b.val < r → s.grid.get i b = 0 :=
  ⟨⟨_, short⟩, hs.below ⟨_, short⟩ le_rfl⟩

end Swept
end WorkedAlgebra.Reduction
