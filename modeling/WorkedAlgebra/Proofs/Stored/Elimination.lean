import WorkedAlgebra.Proofs.Method.RowReduction
import WorkedAlgebra.Proofs.Stored.Sweep

/-!
# Operations by elimination in storage

* **`Stored.rowReduce_stored`**, **`Stored.rank_stored`** and their like: on the stored form of a
  matrix, an operation in storage gives the stored form of what the operation on matrices gives.
-/

namespace WorkedAlgebra.Stored

section

variable (m : RatMatrix)

theorem toRows_reduce {β : Type} (display : DisplayMode) (limit : ℕ) (hlimit : limit = m.cols)
    (f : Sweep → Except StoredFault β) :
    (do f (← reduce display limit (← m.stored.toRows))) =
      f (.of display m.rows_pos m.cols_pos m.grid
        (WorkedAlgebra.reduce (List.finRange m.cols) m.grid)) := by
  rw [hlimit, StoredMatrix.toRows_stored, bind_ok,
    reduce_toRows display m.rows_pos m.cols_pos m.grid List.map_coe_finRange_eq_range, bind_ok]

/-- **Row reduction in storage.** -/
theorem rowReduce_stored :
    rowReduce m.stored = storedResult (Elimination.rowReduce m).outcome := by
  unfold rowReduce Elimination.rowReduce
  rw [toRows_reduce m _ m.stored.cols rfl,
    Traced.outcome_bind_of_ok (Elimination.outcome_reduced _ _)]
  change (StoredMatrix.ofRows (WorkedAlgebra.reduce (List.finRange m.cols) m.grid).grid.toRows _ >>=
    _) = _
  rw [StoredMatrix.ofRows_toRows _ _ m.rows_pos m.cols_pos, bind_ok, Traced.outcome_pure,
    storedResult, Solution.stored_record]
  rfl

theorem length_map_pivotColumns {r c : ℕ} (s : Reduction r c) :
    (s.pivotColumns.map Fin.val).length = s.pivots.length := by
  rw [List.length_map, Reduction.length_pivotColumns]

/-- **The rank in storage.** -/
theorem rank_stored : rank m.stored = storedResult (Elimination.rank m).outcome := by
  set s := WorkedAlgebra.reduce (List.finRange m.cols) m.grid with hs
  unfold rank Elimination.rank
  rw [toRows_reduce m _ m.stored.cols rfl, ← hs,
    Traced.outcome_bind_of_ok (Elimination.outcome_reduced _ _), ← hs, Sweep.of]
  simp only [length_map_pivotColumns]
  rw [snapshot_toRows _ m.rows_pos m.cols_pos, bind_ok, Traced.outcome_pure,
    storedResult, Solution.stored_record, List.map_append]
  rfl

/-! ## The column space -/

theorem basisNote_map {n : ℕ} (cols : List (Fin n)) :
    basisNote (cols.map Fin.val) = Elimination.basisNote cols := by
  cases cols with
  | nil => rfl
  | cons col cols => simp [basisNote, Elimination.basisNote, Function.comp_def]

theorem mapM_columns {r c : ℕ} (g : Grid r c) (display : DisplayMode) (cols : List (Fin c)) :
    (List.range r).mapM (fun i => (cols.map Fin.val).mapM fun j =>
      (⟨r, c, g.entries, display⟩ : StoredMatrix).get i j) =
        .ok (Grid.ofFn fun i k => g.get i (cols.get k) : Grid r cols.length).toRows := by
  rw [Grid.toRows_ofFn]
  refine mapM_range fun i => ?_
  have hpick : (List.finRange cols.length).map (fun k => g.get i (cols.get k)) =
      cols.map (g.get i) := by
    conv_rhs => rw [← List.map_get_finRange cols, List.map_map]
    rfl
  rw [List.mapM_map, hpick]
  exact mapM_eq_ok (StoredMatrix.get_entries g display i) cols

theorem columnsAt_stored (display : DisplayMode) (cols : List (Fin m.cols)) :
    columnsAt m.stored display (cols.map Fin.val) =
      .ok (Elimination.columnsAt m display cols).stored := by
  unfold columnsAt
  cases cols with
  | nil =>
    have hzero : List.replicate m.rows (0 : ℚ) =
        (Grid.ofFn fun _ _ => 0 : Grid m.rows 1).entries :=
      Grid.eq_entries _ (by simp) fun i j => by simp
    refine (if_pos rfl).trans ?_
    rw [show m.stored.rows = m.rows from rfl, hzero]
    exact StoredMatrix.make_entries _ display m.rows_pos Nat.one_pos
  | cons col cols =>
    have hpick := mapM_columns m.grid m.display (col :: cols)
    refine (if_neg (List.cons_ne_nil _ _)).trans ?_
    rw [show m.stored.rows = m.rows from rfl]
    refine (congrArg (· >>= _) hpick).trans ?_
    rw [bind_ok, ← Grid.entries, List.length_map]
    exact StoredMatrix.make_entries _ display m.rows_pos _

theorem columnSpace_stored :
    columnSpace m.stored = storedResult (Elimination.columnSpace m).outcome := by
  set s := WorkedAlgebra.reduce (List.finRange m.cols) m.grid with hs
  unfold columnSpace Elimination.columnSpace
  rw [toRows_reduce m _ m.stored.cols rfl, ← hs,
    Traced.outcome_bind_of_ok (Elimination.outcome_reduced _ _), ← hs, Sweep.of]
  dsimp only
  have hcols : s.pivots.map Prod.fst = s.pivotColumns := rfl
  rw [columnsAt_stored, bind_ok, snapshot_toRows _ m.rows_pos m.cols_pos, bind_ok, basisNote_map,
    Traced.outcome_pure, storedResult, Solution.stored_record, List.map_append]
  rfl

/-! ## The inverse -/

theorem augmented_stored : augmented m.stored = .ok (Elimination.augmented m).toRows := by
  unfold augmented Elimination.augmented
  refine mapM_range (n := m.rows) fun i => ?_
  have hid : (List.range m.rows).map (fun j => if i.val = j then (1 : ℚ) else 0) =
      (Grid.identity m.rows).row i := by
    rw [← List.map_coe_finRange_eq_range, List.map_map, Grid.identity, Grid.row_ofFn]
    refine List.map_congr_left fun j _ => ?_
    exact if_congr Fin.ext_iff.symm rfl rfl
  rw [StoredMatrix.row_stored, bind_ok, Grid.row_beside, ← hid]
  rfl

theorem mapM_dropEntries {r c d : ℕ} (g : Grid r (c + d)) :
    g.toRows.mapM (dropEntries c) =
      .ok (Grid.ofFn fun i j => g.get i (Fin.natAdd c j) : Grid r d).toRows := by
  unfold Grid.toRows
  rw [List.mapM_map]
  refine mapM_eq_ok (fun i => ?_) _
  have hle : c ≤ (g.row i).length := by simp
  rw [Grid.row_ofFn, ← Grid.drop_row]
  exact if_pos hle

theorem inverse_stored : inverse m.stored = storedResult (Elimination.inverse m).outcome := by
  by_cases square : m.isSquare
  · obtain ⟨n, k, g, d, hn, hk⟩ := m
    obtain rfl : n = k := RatMatrix.isSquare_iff.mp square
    set m : RatMatrix := ⟨n, n, g, d, hn, hk⟩ with hm
    have hw : 0 < n + n := Nat.add_pos_left hn n
    have hcolumns : ((List.finRange n).map (Fin.castAdd n)).map Fin.val = List.range n := by
      rw [List.map_map]
      exact List.map_coe_finRange_eq_range
    have hreduce := reduce_toRows (displayOf m.stored) hn hw (Elimination.augmented m) hcolumns
    have hrows : m.stored.rows = n := rfl
    unfold inverse Elimination.inverse
    rw [if_pos square, if_pos (show m.stored.isSquare from square), augmented_stored, bind_ok,
      snapshot_toRows _ hn hw, bind_ok, hrows, hreduce, bind_ok,
      Traced.outcome_bind_of_ok (Elimination.outcome_reduced _ _), Sweep.of]
    set s := WorkedAlgebra.reduce ((List.finRange n).map (Fin.castAdd n)) (Elimination.augmented m)
      with hs
    dsimp only
    rw [length_map_pivotColumns]
    by_cases short : s.pivots.length < n
    · rw [if_pos short, if_pos (show s.pivots.length < m.rows from short)]
      rfl
    · rw [if_neg short, if_neg (show ¬ s.pivots.length < m.rows from short), mapM_dropEntries,
        bind_ok, ← Grid.entries, StoredMatrix.make_entries _ _ hn hn, bind_ok,
        Traced.outcome_pure, storedResult, Solution.stored_record]
      rfl
  · unfold inverse Elimination.inverse
    rw [if_neg square, if_neg (show ¬ m.stored.isSquare from square)]
    rfl

theorem determinant_stored :
    determinant m.stored = storedResult (Elimination.determinant m).outcome := by
  by_cases square : m.isSquare
  · obtain ⟨n, k, g, d, hn, hk⟩ := m
    obtain rfl : n = k := RatMatrix.isSquare_iff.mp square
    set m : RatMatrix := ⟨n, n, g, d, hn, hk⟩ with hm
    set s := WorkedAlgebra.reduce (List.finRange n) g with hs
    have hlen : (s.pivotColumns.map Fin.val).length = (s.pivots.map Prod.snd).length := by
      rw [length_map_pivotColumns, List.length_map]
    unfold determinant Elimination.determinant
    rw [if_pos square, if_pos (show m.stored.isSquare from square),
      toRows_reduce m _ m.stored.rows rfl,
      Traced.outcome_bind_of_ok (Elimination.outcome_reduced _ _), Sweep.of]
    dsimp only
    rw [← hs, hlen, Traced.outcome_pure, storedResult, Solution.stored_record, List.map_append]
    rfl
  · unfold determinant Elimination.determinant
    rw [if_neg square, if_neg (show ¬ m.stored.isSquare from square)]
    rfl

end

end WorkedAlgebra.Stored
