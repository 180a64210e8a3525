import WorkedAlgebra.Proofs.Method.RowReduction
import WorkedAlgebra.Proofs.Method.Solving

/-!
# Matrices that are reduced already

On a grid in reduced row echelon form every pivot is found in the row where it belongs, is one, and
is the only entry of its column, so that an elimination has nothing to do
(**`Reduction.ops_reduce_eq_nil_iff`**).
-/

namespace WorkedAlgebra

namespace Reduction

variable {r c : ℕ}

namespace Swept

variable {s : Reduction r c} {k : ℕ} {col : Fin c}

theorem isLeadingEntry_of_found (hs : s.Swept k) (hcol : col.val = k) {i : Fin r}
    (hi : s.pivots.length ≤ i.val) (hq : s.grid.get i col ≠ 0) :
    s.grid.toMatrix.IsLeadingEntry i col := by
  refine ⟨fun b hb => hs.below i hi b ?_, hq⟩
  rw [← hcol]
  exact hb

/-- **On a grid in reduced row echelon form, placing a pivot takes no operation.** -/
theorem pivotOps_eq_nil (hs : s.Swept k) (hcol : col.val = k)
    (hg : s.grid.toMatrix.IsReducedRowEchelon) {p found : Fin r} (hp : p.val = s.pivots.length)
    (hf : p ≤ found) (hq : s.grid.get found col ≠ 0) : pivotOps s.grid p found col = [] := by
  have hlead := hs.isLeadingEntry_of_found hcol (hp.ge.trans hf) hq
  -- a row above it that is zero in all columns before would make it zero in this one
  have hfound : found = p := by
    by_contra hne
    have hlt : p < found := lt_of_le_of_ne hf (Ne.symm hne)
    refine hq (hg.isRowEchelon hlt fun b hb => hs.below p hp.ge b ?_)
    rw [← hcol]
    exact hb
  subst hfound
  have hraise : raise found found = [] := if_pos rfl
  have hnormalize : normalize found (s.grid.get found col) = [] := if_pos (hg.eq_one hlead)
  have hclear : clear s.grid found col = [] := by
    refine List.filterMap_eq_nil_iff.mpr fun i _ => if_pos ?_
    by_cases hi : i = found
    · exact .inl hi
    · exact .inr (hg.eq_zero_of_ne_of_isLeadingEntry hi hlead)
  unfold pivotOps
  rw [hraise, hnormalize]
  exact hclear

theorem column_of_isReducedRowEchelon (hs : s.Swept k) (hcol : col.val = k)
    (hg : s.grid.toMatrix.IsReducedRowEchelon) :
    (s.column col).ops = s.ops ∧ (s.column col).grid = s.grid := by
  rcases column_cases s col with ⟨h, -⟩ | ⟨p, found, hp, hf, hq, h⟩
  · rw [h]
    exact ⟨rfl, rfl⟩
  · have hnil := hs.pivotOps_eq_nil hcol hg hp hf hq
    rw [h, ops_placePivot, grid_placePivot, hnil, List.append_nil]
    exact ⟨rfl, rfl⟩

theorem foldl_column_of_isReducedRowEchelon (hs : s.Swept k) {columns : List (Fin c)} {n : ℕ}
    (hc : columns.map Fin.val = List.range' k n) (hg : s.grid.toMatrix.IsReducedRowEchelon) :
    (columns.foldl Reduction.column s).ops = s.ops := by
  induction columns generalizing s k n with
  | nil => rfl
  | cons col columns ih =>
    cases n with
    | zero => exact absurd hc (by simp)
    | succ n =>
      rw [List.map_cons, List.range'_succ, List.cons.injEq] at hc
      obtain ⟨hops, hgrid⟩ := hs.column_of_isReducedRowEchelon hc.1 hg
      rw [List.foldl_cons, ih (hs.column hc.1) hc.2 (by rwa [hgrid]), hops]

end Swept

theorem ops_reduce_eq_nil_iff (g : Grid r c) :
    (reduce (List.finRange c) g).ops = [] ↔ g.toMatrix.IsReducedRowEchelon := by
  constructor
  · intro hops
    have hgrid := (tallied_reduce (List.finRange c) g).grid_eq
    rw [hops] at hgrid
    have hreduced := (swept_reduce_finRange g).isReducedRowEchelon
    rwa [hgrid] at hreduced
  · intro hg
    refine (swept_start g).foldl_column_of_isReducedRowEchelon (n := c) ?_ hg
    rw [List.map_coe_finRange_eq_range, List.range_eq_range']

end Reduction

namespace Elimination

theorem shown_eq_nil_iff {r c : ℕ} {g : Grid r c} {ops : List (RowOp r)} {display : DisplayMode}
    {hr : 0 < r} {hc : 0 < c} : shown g ops display hr hc = [] ↔ ops = [] := by
  cases ops <;> simp [shown, RowOp.replay]

theorem steps_rowReduce_iff {m : RatMatrix} {s : Solution} (hs : (rowReduce m).outcome = .ok s) :
    s.steps = [.plain s.answer] ↔ (reduce (List.finRange m.cols) m.grid).ops = [] := by
  rw [outcome_rowReduce_eq_record, Except.ok.injEq] at hs
  rw [← hs, Solution.record, List.append_left_eq_self, shown_eq_nil_iff]

/-- **Row reduction has no step but its answer exactly on the matrices in reduced row echelon
form.** In particular it has none on an answer of its own, which it answers with again. -/
theorem rowReduce_settled_iff (m : RatMatrix) :
    ∃ s g, (rowReduce m).outcome = .ok s ∧
      s.answer = .matrix { m with grid := g, display := displayOf m } ∧
      (s.steps = [.plain s.answer] ↔ m.grid.toMatrix.IsReducedRowEchelon) ∧
      ∃ t, (rowReduce { m with grid := g, display := displayOf m }).outcome = .ok t ∧
        t.answer = s.answer ∧ t.steps = [.plain s.answer] := by
  have hs := outcome_rowReduce_eq_record m
  -- the answer is in reduced row echelon form, so its elimination does nothing
  have hreduced := (Reduction.swept_reduce_finRange m.grid).isReducedRowEchelon
  have hops := (Reduction.ops_reduce_eq_nil_iff _).mpr hreduced
  have hgrid := (Reduction.tallied_reduce (List.finRange m.cols)
    (reduce (List.finRange m.cols) m.grid).grid).grid_eq
  rw [hops] at hgrid
  have ht := outcome_rowReduce_eq_record
    { m with grid := (reduce (List.finRange m.cols) m.grid).grid, display := displayOf m }
  have hanswer : Value.matrix { m with
      grid := (reduce (List.finRange m.cols) (reduce (List.finRange m.cols) m.grid).grid).grid,
      display := .resolve [displayOf m] } = .matrix { m with
        grid := (reduce (List.finRange m.cols) m.grid).grid, display := displayOf m } := by
    rw [hgrid, displayOf, DisplayMode.resolve_resolve]
    rfl
  refine ⟨_, _, hs, rfl, ?_, _, ht, hanswer, ?_⟩
  · rw [steps_rowReduce_iff hs, Reduction.ops_reduce_eq_nil_iff]
  · exact ((steps_rowReduce_iff ht).mpr hops).trans (congrArg (fun v => [Step.plain v]) hanswer)

end Elimination
end WorkedAlgebra
