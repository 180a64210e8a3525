import WorkedAlgebra.Proofs.Method.Sweep
import WorkedAlgebra.Proofs.Stored.Basic
import WorkedAlgebra.Stored.Elimination

/-!
# Elimination in storage, column by column

An elimination on stored rows keeps the rows of the grid that the elimination on grids leads to, and
its snapshots are the grids after each row operation, with the notes that name the operations
(**`Stored.reduce_toRows`**).
-/

namespace WorkedAlgebra

/-! ## Rows after a row operation -/

namespace RowOp

variable {r c : ℕ} (g : Grid r c)

theorem row_apply_scale (p : Fin r) (q : ℚ) :
    ((scale p q).apply g).row p = (g.row p).map (· * q) := by
  unfold Grid.row
  rw [List.map_map]
  refine List.map_congr_left fun j _ => ?_
  rw [get_apply_scale, if_pos rfl, mul_comm]
  rfl

theorem lessMultiple_map (q : ℚ) (f f' : Fin c → ℚ) (l : List (Fin c)) :
    Stored.lessMultiple q (l.map f) (l.map f') = l.map fun j => f j - q * f' j := by
  induction l with
  | nil => rfl
  | cons j l ih => rw [List.map_cons, List.map_cons, Stored.lessMultiple, ih, List.map_cons]

theorem row_apply_subtract (i p : Fin r) (q : ℚ) :
    ((subtract i q p).apply g).row i = Stored.lessMultiple q (g.row i) (g.row p) := by
  unfold Grid.row
  rw [lessMultiple_map]
  refine List.map_congr_left fun j _ => ?_
  rw [get_apply_subtract, if_pos rfl]

theorem toRows_apply_scale (p : Fin r) (q : ℚ) :
    g.toRows.set p ((g.row p).map (· * q)) = ((scale p q).apply g).toRows := by
  rw [← row_apply_scale]
  refine Grid.toRows_set fun a ha => Grid.row_eq_of_get fun j => ?_
  rw [get_apply_scale, if_neg ha]

theorem toRows_apply_subtract (i p : Fin r) (q : ℚ) :
    g.toRows.set i (Stored.lessMultiple q (g.row i) (g.row p)) =
      ((subtract i q p).apply g).toRows := by
  rw [← row_apply_subtract]
  refine Grid.toRows_set fun a ha => Grid.row_eq_of_get fun j => ?_
  rw [get_apply_subtract, if_neg ha]

theorem toRows_apply_swap (p found : Fin r) :
    (g.toRows.set p (g.row found)).set found (g.row p) = ((swap p found).apply g).toRows := by
  -- after the first write, row `found` stands twice
  let h : Grid r c := .ofFn fun a j => if a = p then g.get found j else g.get a j
  have hp : g.row found = h.row p := Grid.row_eq_of_get fun j => by simp [h]
  have hf : g.row p = ((swap p found).apply g).row found := Grid.row_eq_of_get fun j => by
    rw [get_apply_swap]
    by_cases hfp : found = p
    · rw [if_pos hfp, hfp]
    · rw [if_neg hfp, if_pos rfl]
  have h₁ : g.toRows.set p (h.row p) = h.toRows :=
    Grid.toRows_set fun a ha => Grid.row_eq_of_get fun j => by simp [h, ha]
  rw [hp, h₁, hf]
  refine Grid.toRows_set fun a ha => Grid.row_eq_of_get fun j => ?_
  rw [get_apply_swap, if_neg ha, Grid.get_ofFn]

theorem replay_append_singleton (ops : List (RowOp r)) (op : RowOp r) :
    replay g (ops ++ [op]) = replay g ops ++ [(op, op.apply (applyAll ops g))] := by
  induction ops generalizing g with
  | nil => rfl
  | cons op' ops ih =>
    rw [List.cons_append, replay, replay, ih]
    rfl

end RowOp

/-! ## Operations in turn -/

namespace Reduction

variable {r c : ℕ} {s : Reduction r c}

theorem perform_nil (s : Reduction r c) : s.perform [] = s := by
  simp [perform, RowOp.applyAll]

theorem perform_append (s : Reduction r c) (ops ops' : List (RowOp r)) :
    s.perform (ops ++ ops') = (s.perform ops).perform ops' := by
  simp [perform, RowOp.applyAll_append]

theorem grid_perform {g : Grid r c} (hs : s.grid = RowOp.applyAll s.ops g) (ops : List (RowOp r)) :
    (s.perform ops).grid = RowOp.applyAll (s.perform ops).ops g := by
  rw [perform, RowOp.applyAll_append, ← hs]

theorem placePivot_eq (s : Reduction r c) (p found : Fin r) (col : Fin c) :
    s.placePivot p found col =
      let t := (s.perform (raise p found)).perform (normalize p (s.grid.get found col))
      { t.perform (clear t.grid p col) with
        pivots := s.pivots ++ [(col, s.grid.get found col)] } := by
  unfold placePivot
  simp only [perform_append]

theorem height_column (h : s.pivots.length ≤ r) (col : Fin c) :
    (s.column col).pivots.length ≤ r := by
  rcases column_cases s col with ⟨hs, _⟩ | ⟨p, found, hp, _, _, hs⟩
  · rw [hs]
    exact h
  · have := p.isLt
    rw [hs, pivots_placePivot, List.length_append, List.length_singleton]
    omega

end Reduction

/-! ## Notes -/

namespace Stored

variable {r c : ℕ}

theorem clearNote_eq (i p : Fin r) (q : ℚ) : clearNote i p q = (RowOp.subtract i q p).note := by
  unfold clearNote RowOp.note
  by_cases h : q < 0
  · simp only [if_pos h]
    simp [rowName, RowOp.rowName, String.append_assoc]
  · simp only [if_neg h]
    simp [rowName, RowOp.rowName, String.append_assoc]

/-! ## The search for a pivot -/

theorem findM?_map {α β ε : Type} {f : α → Except ε Bool} {v : β → α} {p : β → Bool}
    (h : ∀ b, f (v b) = .ok (p b)) (l : List β) :
    (l.map v).findM? f = .ok ((l.find? p).map v) := by
  induction l with
  | nil => rfl
  | cons b l ih =>
    rw [List.map_cons, List.findM?, h, bind_ok, List.find?_cons]
    cases p b with
    | true => rfl
    | false => exact ih

theorem range'_eq_map {top : ℕ} (h : top ≤ r) :
    List.range' top (r - top) = ((List.finRange r).filter (top ≤ ·.val)).map Fin.val := by
  have hr : List.range top ++ List.range' top (r - top) = List.range r := by
    have := List.range'_append_1 (s := 0) (m := top) (n := r - top)
    rwa [Nat.zero_add, Nat.add_sub_cancel' h, ← List.range_eq_range', ← List.range_eq_range']
      at this
  have hfilter : (List.range r).filter (top ≤ ·) = List.range' top (r - top) := by
    rw [← hr, List.filter_append, List.filter_eq_nil_iff.mpr (by simp), List.nil_append,
      List.filter_eq_self]
    intro k hk
    simpa using (List.mem_range'_1.mp hk).1
  rw [← hfilter, ← List.map_coe_finRange_eq_range, List.filter_map]
  rfl

theorem pivotRow?_toRows (g : Grid r c) {top : ℕ} (h : top ≤ r) (col : Fin c) :
    pivotRow? g.toRows top col = .ok ((Reduction.pivotRow? g top col).map Fin.val) := by
  unfold pivotRow? Reduction.pivotRow?
  have hcell : ∀ i : Fin r, (do
      let row ← fetch g.toRows i
      let q ← fetch row col
      pure (q != 0)) = Except.ok (g.get i col != 0) := fun i => by
    rw [fetch_eq_ok (g.getElem?_toRows i), bind_ok, fetch_eq_ok (g.getElem?_row i col)]
    rfl
  rw [Grid.length_toRows, range'_eq_map h, findM?_map hcell, List.find?_filter]
  simp only [Bool.decide_and, Bool.decide_eq_true]

theorem snapshot_toRows {r c : ℕ} (display : DisplayMode) (hr : 0 < r) (hc : 0 < c)
    (g : Grid r c) (note : String) :
    snapshot display g.toRows note =
      .ok (Step.stored (.noted (.matrix ⟨r, c, g, display, hr, hc⟩) note)) := by
  unfold snapshot
  rw [StoredMatrix.ofRows_toRows _ _ hr hc]
  rfl

/-! ## One column -/

namespace Sweep

section

variable (display : DisplayMode) (hr : 0 < r) (hc : 0 < c) (g : Grid r c)

/-- The state in storage of an elimination that started with a grid. -/
def of (s : Reduction r c) : Sweep where
  rows := s.grid.toRows
  top := s.pivots.length
  pivotColumns := s.pivotColumns.map Fin.val
  pivots := s.pivots.map Prod.snd
  swaps := s.swaps
  steps := (Elimination.shown g s.ops display hr hc).map Step.stored

variable {g} {s : Reduction r c}

theorem fetch_rows (i : Fin r) : fetch (of display hr hc g s).rows i = .ok (s.grid.row i) :=
  fetch_eq_ok (s.grid.getElem?_toRows i)

/-- **Overwriting a row is a row operation.** -/
theorem overwrite_of (hs : s.grid = RowOp.applyAll s.ops g) (op : RowOp r) :
    (of display hr hc g s).overwrite display (op.apply s.grid).toRows op.note =
      .ok { of display hr hc g (s.perform [op]) with swaps := s.swaps } := by
  have hsteps : Elimination.shown g (s.ops ++ [op]) display hr hc =
      Elimination.shown g s.ops display hr hc ++
        [.noted (.matrix ⟨r, c, op.apply s.grid, display, hr, hc⟩) op.note] := by
    rw [Elimination.shown, RowOp.replay_append_singleton, List.map_append, ← hs]
    rfl
  unfold overwrite
  rw [snapshot_toRows display hr hc]
  unfold of Reduction.perform
  simp only [hsteps, List.map_append]
  rfl

theorem overwrite_of_plain (hs : s.grid = RowOp.applyAll s.ops g) (op : RowOp r)
    (hop : op.isSwap = false) :
    (of display hr hc g s).overwrite display (op.apply s.grid).toRows op.note =
      .ok (of display hr hc g (s.perform [op])) := by
  have hsw : (s.perform [op]).swaps = s.swaps := by
    simp [Reduction.swaps, Reduction.perform, hop]
  rw [overwrite_of display hr hc hs, ← hsw]
  rfl

theorem raise_of (hs : s.grid = RowOp.applyAll s.ops g) {p : Fin r} (hp : p.val = s.pivots.length)
    (found : Fin r) :
    (of display hr hc g s).raise display found =
      .ok (of display hr hc g (s.perform (Reduction.raise p found))) := by
  have htop : (of display hr hc g s).top = p.val := hp.symm
  unfold raise Reduction.raise
  rw [htop]
  by_cases hf : found = p
  · rw [if_pos hf, if_pos (congrArg Fin.val hf), Reduction.perform_nil]
    rfl
  · have hrows := RowOp.toRows_apply_swap s.grid p found
    have hsw : (s.perform [.swap p found]).swaps = s.swaps + 1 := by
      simp [Reduction.swaps, Reduction.perform, RowOp.isSwap]
    rw [if_neg hf, if_neg fun h => hf (Fin.ext h), fetch_rows, bind_ok, fetch_rows, bind_ok]
    change (overwrite _ _ ((s.grid.toRows.set p (s.grid.row found)).set found (s.grid.row p)) _
      >>= _) = _
    rw [hrows]
    refine (congrArg (· >>= _) (overwrite_of display hr hc hs (.swap p found))).trans ?_
    rw [bind_ok]
    unfold of
    rw [hsw]
    rfl

theorem normalize_of (hs : s.grid = RowOp.applyAll s.ops g) {p : Fin r}
    (hp : p.val = s.pivots.length) {pivot : ℚ} (hpivot : pivot ≠ 0) :
    (of display hr hc g s).normalize display pivot =
      .ok (of display hr hc g (s.perform (Reduction.normalize p pivot))) := by
  have htop : (of display hr hc g s).top = p.val := hp.symm
  unfold normalize Reduction.normalize
  rw [htop]
  by_cases h1 : pivot = 1
  · rw [if_pos h1, if_pos h1, Reduction.perform_nil]
    rfl
  · rw [if_neg h1, if_neg h1, reciprocal_eq_ok hpivot, bind_ok, fetch_rows, bind_ok]
    have h := overwrite_of_plain display hr hc hs (.scale p pivot⁻¹) rfl
    rw [← RowOp.toRows_apply_scale] at h
    exact h

theorem clearRow_of (hs : s.grid = RowOp.applyAll s.ops g) {p : Fin r}
    (hp : p.val = s.pivots.length) (col : Fin c) (i : Fin r) :
    (of display hr hc g s).clearRow display col (s.grid.row p) i =
      .ok (of display hr hc g
        (s.perform (Reduction.clearRows (fun i => s.grid.get i col) p [i]))) := by
  have htop : (of display hr hc g s).top = p.val := hp.symm
  have hskip : i = p ∨ s.grid.get i col = 0 →
      Reduction.clearRows (fun i => s.grid.get i col) p [i] = [] := fun h => by
    simp [Reduction.clearRows, h]
  unfold clearRow
  rw [htop]
  by_cases hip : i = p
  · rw [if_pos (congrArg Fin.val hip), hskip (.inl hip), Reduction.perform_nil]
    rfl
  rw [if_neg fun h => hip (Fin.ext h), fetch_rows, bind_ok,
    fetch_eq_ok (s.grid.getElem?_row i col), bind_ok]
  by_cases hz : s.grid.get i col = 0
  · rw [if_pos hz, hskip (.inr hz), Reduction.perform_nil]
    rfl
  · have hclear : Reduction.clearRows (fun i => s.grid.get i col) p [i] =
        [.subtract i (s.grid.get i col) p] := by
      simp [Reduction.clearRows, hip, hz]
    have h := overwrite_of_plain display hr hc hs (.subtract i (s.grid.get i col) p) rfl
    rw [← RowOp.toRows_apply_subtract, ← clearNote_eq] at h
    rw [if_neg hz, hclear]
    exact h

/-- **The rows other than the pivot row are cleared one after another.** A row that was not visited
yet is the row that it was at first. -/
theorem clearRows_of {p : Fin r} (col : Fin c) {rows : List (Fin r)} (hn : rows.Nodup)
    (hs : s.grid = RowOp.applyAll s.ops g) (hp : p.val = s.pivots.length) :
    (rows.map Fin.val).foldlM (clearRow display col (s.grid.row p)) (of display hr hc g s) =
      .ok (of display hr hc g
        (s.perform (Reduction.clearRows (fun i => s.grid.get i col) p rows))) := by
  induction rows generalizing s with
  | nil =>
    rw [Reduction.clearRows, List.filterMap_nil, Reduction.perform_nil]
    rfl
  | cons i rows ih =>
    obtain ⟨hi, hn⟩ := List.nodup_cons.mp hn
    have hcons : Reduction.clearRows (fun i => s.grid.get i col) p (i :: rows) =
        Reduction.clearRows (fun i => s.grid.get i col) p [i] ++
          Reduction.clearRows (fun i => s.grid.get i col) p rows :=
      List.filterMap_append (l := [i])
    set t := s.perform (Reduction.clearRows (fun i => s.grid.get i col) p [i]) with ht
    have hget : ∀ a b, (a = p ∨ a ∈ rows) → t.grid.get a b = s.grid.get a b := fun a b ha => by
      rw [ht, Reduction.perform, Reduction.get_applyAll_clearRows _ _ (List.nodup_singleton i),
        if_neg]
      rintro ⟨hap, hai⟩
      obtain rfl := List.mem_singleton.mp hai
      exact ha.elim hap hi
    have hrow : t.grid.row p = s.grid.row p := Grid.row_eq_of_get fun b => hget p b (.inl rfl)
    have hrest : Reduction.clearRows (fun i => t.grid.get i col) p rows =
        Reduction.clearRows (fun i => s.grid.get i col) p rows := by
      refine List.filterMap_congr fun a ha => ?_
      simp only [hget a col (.inr ha)]
    have h := ih hn (s := t) (Reduction.grid_perform hs _) hp
    rw [hrow, hrest] at h
    rw [List.map_cons, List.foldlM_cons, clearRow_of display hr hc hs hp, bind_ok, ← ht, h, ht,
      hcons, Reduction.perform_append]

/-- **A pivot placed**: its row is brought up, scaled, and subtracted from the others. -/
theorem placePivot_of (hs : s.grid = RowOp.applyAll s.ops g) {p found : Fin r}
    (hp : p.val = s.pivots.length) {col : Fin c} (hq : s.grid.get found col ≠ 0) :
    (do
      let t ← (of display hr hc g s).raise display found
      let row ← fetch t.rows t.top
      let pivot ← fetch row col
      let t ← t.normalize display pivot
      let pivotValues ← fetch t.rows t.top
      let t ← (List.range t.rows.length).foldlM (clearRow display col pivotValues) t
      pure { t with
        top := t.top + 1
        pivotColumns := t.pivotColumns ++ [col.val]
        pivots := t.pivots ++ [pivot] } : Except StoredFault Sweep) =
      .ok (of display hr hc g (s.placePivot p found col)) := by
  set u := s.perform (Reduction.raise p found) with hu
  have hu' : u.grid = RowOp.applyAll u.ops g := Reduction.grid_perform hs _
  have hpivot : u.grid.get p col = s.grid.get found col := by
    rw [hu, Reduction.perform, Reduction.get_applyAll_raise, Equiv.swap_apply_left]
  have htop : (of display hr hc g u).top = p.val := hp.symm
  rw [raise_of display hr hc hs hp, bind_ok, ← hu, htop, fetch_rows, bind_ok,
    fetch_eq_ok (u.grid.getElem?_row p col), bind_ok, hpivot,
    normalize_of display hr hc hu' hp hq, bind_ok]
  set t := u.perform (Reduction.normalize p (s.grid.get found col)) with ht
  have ht' : t.grid = RowOp.applyAll t.ops g := Reduction.grid_perform hu' _
  have hlen : (of display hr hc g t).rows.length = r := t.grid.length_toRows
  have htop' : (of display hr hc g t).top = p.val := hp.symm
  rw [htop', fetch_rows, bind_ok, hlen, ← List.map_coe_finRange_eq_range,
    clearRows_of display hr hc col (List.nodup_finRange r) ht' hp, bind_ok, Reduction.placePivot_eq]
  unfold of
  simp only [Reduction.pivotColumns, List.map_append, List.length_append]
  rfl

theorem column_of (hs : s.grid = RowOp.applyAll s.ops g) (height : s.pivots.length ≤ r)
    (col : Fin c) :
    (of display hr hc g s).column display col = .ok (of display hr hc g (s.column col)) := by
  unfold column Reduction.column
  have hlen : (of display hr hc g s).rows.length = r := s.grid.length_toRows
  have hsearch : pivotRow? (of display hr hc g s).rows (of display hr hc g s).top col =
      .ok ((Reduction.pivotRow? s.grid s.pivots.length col).map Fin.val) :=
    pivotRow?_toRows s.grid height col
  rw [hlen]
  by_cases h : s.pivots.length < r
  · have hne : (of display hr hc g s).top ≠ r := Nat.ne_of_lt h
    rw [dif_pos h, if_neg hne, hsearch, bind_ok]
    cases hp : Reduction.pivotRow? s.grid s.pivots.length col with
    | none => rfl
    | some found =>
      exact placePivot_of display hr hc hs rfl (Reduction.pivotRow?_eq_some hp).2
  · have heq : (of display hr hc g s).top = r := Nat.le_antisymm height (Nat.not_lt.mp h)
    rw [dif_neg h, if_pos heq]
    rfl

theorem foldlM_column_of (hs : Reduction.Tallied g s) (height : s.pivots.length ≤ r)
    (columns : List (Fin c)) :
    (columns.map Fin.val).foldlM (column display) (of display hr hc g s) =
      .ok (of display hr hc g (columns.foldl Reduction.column s)) := by
  induction columns generalizing s with
  | nil => rfl
  | cons col columns ih =>
    rw [List.map_cons, List.foldlM_cons, column_of display hr hc hs.grid_eq height, bind_ok,
      ih (hs.column col) (Reduction.height_column height col), List.foldl_cons]

end

end Sweep

/-- **An elimination in storage is the elimination of the grid.** -/
theorem reduce_toRows (display : DisplayMode) (hr : 0 < r) (hc : 0 < c) (g : Grid r c)
    {columns : List (Fin c)} {limit : ℕ} (hcolumns : columns.map Fin.val = List.range limit) :
    reduce display limit g.toRows =
      .ok (Sweep.of display hr hc g (WorkedAlgebra.reduce columns g)) := by
  unfold reduce
  rw [← hcolumns]
  exact Sweep.foldlM_column_of display hr hc (Reduction.tallied_start g) (Nat.zero_le r) columns

end Stored
end WorkedAlgebra
