import WorkedAlgebra.Proofs.Method.Derivation
import WorkedAlgebra.Proofs.Method.Undefined
import WorkedAlgebra.Proofs.Stored.Elimination

/-!
# The steps of an elimination in storage

* **`Stored.steps_retraceable`**: the steps of eliminations are a derivation, whatever the display
  mode, and their notes alone lead to them.
-/

namespace WorkedAlgebra.Stored

variable {r c : ℕ}

def held (display : DisplayMode) (g : Grid r c) : StoredValue :=
  .matrix ⟨r, c, g.entries, display⟩

/-- The steps that show the snapshots of a derivation. -/
def shownSteps (display : DisplayMode) (snapshots : List (Grid r c × String)) : List StoredStep :=
  snapshots.map fun p => ⟨held display p.1, some p.2⟩

theorem map_stored_shown (g : Grid r c) (ops : List (RowOp r)) (display : DisplayMode) (hr : 0 < r)
    (hc : 0 < c) :
    (Elimination.shown g ops display hr hc).map Step.stored =
      shownSteps display (RowOp.annotate g ops) := by
  unfold Elimination.shown shownSteps RowOp.annotate
  rw [List.map_map, List.map_map]
  rfl

/-- A derivation whose notes alone lead to its snapshots. -/
structure Retraceable (g : Grid r c) (snapshots : List (Grid r c × String)) (last : Grid r c) :
    Prop where
  derivation : Derivation g snapshots last
  retraced : retrace g (snapshots.map Prod.snd) = some (snapshots.map Prod.fst)

theorem retraceable_reduce (columns : List (Fin c)) (g : Grid r c) :
    Retraceable g (RowOp.annotate g (WorkedAlgebra.reduce columns g).ops)
      (WorkedAlgebra.reduce columns g).grid where
  derivation := Reduction.derivation_reduce columns g
  retraced := (Reduction.derivation_reduce columns g).retrace_eq

/-! ## Row reduction, rank, column space and determinant -/

section

variable (m : RatMatrix)

def eliminated : Reduction m.rows m.cols :=
  WorkedAlgebra.reduce (List.finRange m.cols) m.grid

def annotated : List (Grid m.rows m.cols × String) :=
  RowOp.annotate m.grid (eliminated m).ops

theorem rowReduce_eq_record :
    rowReduce m.stored = .ok (.record .rowReduce [.matrix m.stored]
      (held (displayOf m.stored) (eliminated m).grid)
      (shownSteps (displayOf m.stored) (annotated m))) := by
  rw [rowReduce_stored, Elimination.rowReduce,
    Traced.outcome_bind_of_ok (Elimination.outcome_reduced _ _), Traced.outcome_pure, storedResult,
    Solution.stored_record, map_stored_shown]
  rfl

theorem rank_eq_record :
    ∃ s note, rank m.stored = .ok (.record .rank [.matrix m.stored] (.scalar s)
      (shownSteps (displayOf m.stored) (annotated m) ++
        [⟨held (displayOf m.stored) (eliminated m).grid, some note⟩])) := by
  rw [rank_stored, Elimination.rank,
    Traced.outcome_bind_of_ok (Elimination.outcome_reduced _ _), Traced.outcome_pure, storedResult,
    Solution.stored_record, List.map_append, map_stored_shown]
  exact ⟨_, _, rfl⟩

theorem columnSpace_eq_record :
    ∃ a note, columnSpace m.stored = .ok (.record .columnSpace [.matrix m.stored] (.matrix a)
      (shownSteps (displayOf m.stored) (annotated m) ++
        [⟨held (displayOf m.stored) (eliminated m).grid, some note⟩])) := by
  rw [columnSpace_stored, Elimination.columnSpace,
    Traced.outcome_bind_of_ok (Elimination.outcome_reduced _ _), Traced.outcome_pure, storedResult,
    Solution.stored_record, List.map_append, map_stored_shown]
  exact ⟨_, _, rfl⟩

theorem determinant_eq_record (square : m.rows = m.cols) :
    ∃ s t note, determinant m.stored = .ok (.record .determinant [.matrix m.stored] (.scalar s)
      (shownSteps (displayOf m.stored) (annotated m) ++ [⟨.scalar t, some note⟩])) := by
  rw [determinant_stored, Elimination.determinant, if_pos (RatMatrix.isSquare_iff.mpr square),
    Traced.outcome_bind_of_ok (Elimination.outcome_reduced _ _), Traced.outcome_pure, storedResult,
    Solution.stored_record, List.map_append, map_stored_shown]
  exact ⟨_, _, _, rfl⟩

end

/-! ## The inverse -/

/-- Ones where row and column have the same number, and zeros elsewhere. -/
def unit (r c : ℕ) : Grid r c :=
  .ofFn fun i j => if i.val = j.val then 1 else 0

section

variable {n : ℕ} (g : Grid n n)

/-- The right half at the end of the elimination of a grid beside the identity. -/
def rightHalf : Grid n n :=
  .ofFn fun i j => (Elimination.inverseReduction g).grid.get i (Fin.natAdd n j)

theorem inverse_eq_record (display : DisplayMode) (hr hc : 0 < n)
    (full : (Elimination.inverseReduction g).pivots.length = n) :
    inverse (RatMatrix.mk n n g display hr hc).stored =
      .ok (.record .inverse [.matrix (RatMatrix.mk n n g display hr hc).stored]
        (held (.resolve [display]) (rightHalf g))
        (⟨held (.resolve [display]) (g.beside (.identity n)),
            some "augment with the identity matrix"⟩ ::
          shownSteps (.resolve [display])
            (RowOp.annotate (g.beside (.identity n)) (Elimination.inverseReduction g).ops))) := by
  have hnot : ¬ (Elimination.inverseReduction g).pivots.length < n := by omega
  rw [inverse_stored, Elimination.inverse, if_pos (RatMatrix.isSquare_iff.mpr rfl),
    Traced.outcome_bind_of_ok (Elimination.outcome_reduced _ _)]
  refine (congrArg (fun t => storedResult (Traced.outcome t)) (if_neg hnot)).trans ?_
  rw [Traced.outcome_pure, storedResult, Solution.stored_record,
    ← map_stored_shown _ _ _ hr (Nat.add_pos_left hc n)]
  rfl

theorem grid_inverseReduction (full : (Elimination.inverseReduction g).pivots.length = n) :
    (Elimination.inverseReduction g).grid = (unit n n).beside (rightHalf g) := by
  ext i j
  refine Fin.addCases (fun j => ?_) (fun j => ?_) j
  · have hj : (Fin.castAdd n j).val < n := j.isLt
    rw [(Elimination.swept_inverseReduction g).get_of_full full i hj, Grid.beside, Grid.get_ofFn,
      Fin.addCases_left, unit, Grid.get_ofFn]
    rfl
  · rw [Grid.beside, Grid.get_ofFn, Fin.addCases_right, rightHalf, Grid.get_ofFn]

end

/-! ## All five -/

/-- **The steps of an elimination can be retraced**: in any display mode they show the snapshots of
a derivation, to which the notes alone lead. -/
theorem steps_retraceable (m : RatMatrix) :
    (∃ R snapshots, Retraceable m.grid snapshots R ∧ ∀ mode,
      let a := (m.withDisplay mode).stored
      let display := displayOf a
      rowReduce a = .ok (.record .rowReduce [.matrix a] (held display R)
        (shownSteps display snapshots)) ∧
      (∃ q note, rank a = .ok (.record .rank [.matrix a] (.scalar q)
        (shownSteps display snapshots ++ [⟨held display R, some note⟩]))) ∧
      (∃ basis note, columnSpace a = .ok (.record .columnSpace [.matrix a] (.matrix basis)
        (shownSteps display snapshots ++ [⟨held display R, some note⟩]))) ∧
      (m.rows = m.cols → ∃ q t note, determinant a = .ok (.record .determinant [.matrix a]
        (.scalar q) (shownSteps display snapshots ++ [⟨.scalar t, some note⟩])))) ∧
    ((∀ mode s, inverse (m.withDisplay mode).stored ≠ .ok s) ∨
      ∃ (X : Grid m.rows m.rows) (snapshots : List (Grid m.rows (m.cols + m.rows) × String)),
        Retraceable (m.grid.beside (.identity m.rows)) snapshots ((unit m.rows m.cols).beside X) ∧
        ∀ mode,
          let a := (m.withDisplay mode).stored
          let display := displayOf a
          inverse a = .ok (.record .inverse [.matrix a] (held display X)
            (⟨held display (m.grid.beside (.identity m.rows)),
              some "augment with the identity matrix"⟩ :: shownSteps display snapshots))) := by
  constructor
  · refine ⟨_, _, retraceable_reduce (List.finRange m.cols) m.grid, fun mode => ?_⟩
    exact ⟨rowReduce_eq_record (m.withDisplay mode), rank_eq_record (m.withDisplay mode),
      columnSpace_eq_record (m.withDisplay mode), determinant_eq_record (m.withDisplay mode)⟩
  · by_cases square : m.rows = m.cols
    · obtain ⟨n, k, g, d, hr, hc⟩ := m
      obtain rfl : n = k := square
      by_cases short : (Elimination.inverseReduction g).pivots.length < n
      · refine .inl fun mode s hs => ?_
        have h := Elimination.outcome_inverse_of_short mode hr hc short
        rw [RatMatrix.withDisplay, inverse_stored, h] at hs
        cases hs
      · have full : (Elimination.inverseReduction g).pivots.length = n :=
          le_antisymm (Elimination.swept_inverseReduction g).height (Nat.le_of_not_lt short)
        refine .inr ⟨rightHalf g, _, ?_, fun mode => inverse_eq_record g mode hr hc full⟩
        rw [← grid_inverseReduction g full]
        exact retraceable_reduce _ _
    · refine .inl fun mode s hs => ?_
      have h := (Elimination.outcome_inverse_eq_error_iff (m.withDisplay mode)).mpr
        (.inl ⟨square, rfl⟩)
      rw [inverse_stored, h] at hs
      cases hs

/-- A square matrix whose elimination starts with an exchange. -/
theorem steps_retraceable_of_exchange :
    let m : RatMatrix := ⟨2, 2, .ofFn ![![0, 2], ![1, 3]], .fraction, by decide, by decide⟩
    m.rows = m.cols ∧ ∃ R snapshots, Retraceable m.grid snapshots R ∧ ∃ q t note,
      determinant m.stored = .ok (.record .determinant [.matrix m.stored] (.scalar q)
        (shownSteps (displayOf m.stored) snapshots ++ [⟨.scalar t, some note⟩])) := by
  intro m
  have square : m.rows = m.cols := rfl
  obtain ⟨⟨R, snapshots, hretrace, hmodes⟩, -⟩ := steps_retraceable m
  obtain ⟨-, -, -, hdet⟩ := hmodes .fraction
  exact ⟨square, R, snapshots, hretrace, hdet square⟩

example : (rowReduce ⟨2, 2, [0, 2, 1, 3], .fraction⟩).toOption.map
    (fun s => s.steps.filterMap StoredStep.note) =
      some ["R1 <-> R2", "R2 = (1/2)R2", "R1 = R1 - 3R2"] := by
  decide +kernel

end WorkedAlgebra.Stored
