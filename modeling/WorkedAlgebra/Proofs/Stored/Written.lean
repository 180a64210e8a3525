import WorkedAlgebra.Proofs.Method.Determinant
import WorkedAlgebra.Proofs.Method.Written
import WorkedAlgebra.Proofs.Stored.Arithmetic
import WorkedAlgebra.Proofs.Stored.Elimination
import WorkedAlgebra.Proofs.Value.Cells

/-!
# Written grids and products of pivots

* **`Stored.steps_denote_answers`**: outside decimal mode, sums, differences and products of
  matrices are written out entry by entry, and determinants as products of pivots.
-/

namespace WorkedAlgebra

/-! ## Formulas in cells -/

theorem Formula.Denotes.plainCell {p : Formula.Part} {cell : String} {x : ℚ}
    (h : Formula.Denotes p cell.toList x) : PlainCell cell := by
  have hsymbol := h.isSymbol
  exact ⟨fun hc => absurd (hsymbol _ hc) (by decide), fun hc => absurd (hsymbol _ hc) (by decide),
    fun hc => absurd (hsymbol _ hc) (by decide)⟩

namespace Stored

open Formula (Denotes)

/-- **A text writes a matrix out** if it is a grid in brackets whose cells denote the entries. -/
structure WritesOut (text : String) (a : StoredMatrix) : Prop where
  brackets : bracketed (cellsOf text) = text
  rows : (cellsOf text).length = a.rows
  cols : ∀ row ∈ cellsOf text, row.length = a.cols
  denotes : ∀ i < a.rows, ∀ j < a.cols, ∃ row cell x, (cellsOf text)[i]? = some row ∧
    row[j]? = some cell ∧ a.get i j = .ok x ∧ ∀ y, Denotes .sum cell.toList y ↔ y = x

/-- The first step of a solution writes its answer out. -/
def StartsWrittenOut (s : StoredSolution) : Prop :=
  ∃ answer text note, s.answer = .matrix answer ∧
    s.steps.head? = some ⟨.matrix (answer.withDisplay (.custom text)), note⟩ ∧
    WritesOut text answer

/-- The last step of a solution before its answer is a formula for it. -/
def ClosesWrittenOut (s : StoredSolution) : Prop :=
  ∃ answer earlier text, s.answer = .scalar answer ∧
    s.steps = earlier ++ [⟨.scalar ⟨answer.value, .custom ("det = " ++ text)⟩,
      some ("det = " ++ text)⟩, ⟨.scalar answer, none⟩] ∧
    ∀ y, Denotes .sum text.toList y ↔ y = answer.value

theorem cellsOf_gridText {r c : ℕ} (hr : 0 < r) (hc : 0 < c) {cell : Fin r → Fin c → String}
    (plain : ∀ i j, PlainCell (cell i j)) :
    cellsOf (MatrixArithmetic.gridText r c cell) =
      (List.finRange r).map fun i => (List.finRange c).map (cell i) := by
  have hfin : ∀ {n : ℕ}, 0 < n → List.finRange n ≠ [] := fun hn => by
    simpa using hn.ne'
  refine cellsOf_bracketed (by simpa using hfin hr) ?_ ?_
  · simpa using fun _ => hfin hc
  · simpa using plain

theorem writesOut_gridText (m : RatMatrix) {cell : Fin m.rows → Fin m.cols → String}
    (h : ∀ i j, Denotes .sum (cell i j).toList (m.grid.get i j)) :
    WritesOut (MatrixArithmetic.gridText m.rows m.cols cell) m.stored := by
  have hcells := cellsOf_gridText m.rows_pos m.cols_pos fun i j => (h i j).plainCell
  refine ⟨?_, ?_, ?_, fun i (hi : i < m.rows) j (hj : j < m.cols) => ?_⟩
  · rw [hcells]
    rfl
  · rw [hcells, List.length_map, List.length_finRange]
    rfl
  · rw [hcells]
    simp [RatMatrix.stored]
  · refine ⟨(List.finRange m.cols).map (cell ⟨i, hi⟩), _, _, ?_, ?_,
      StoredMatrix.get_entries m.grid m.display ⟨i, hi⟩ ⟨j, hj⟩, (h ⟨i, hi⟩ ⟨j, hj⟩).iff_eq⟩
    · rw [hcells, List.getElem?_map, List.getElem?_eq_getElem (by simpa using hi)]
      simp
    · rw [List.getElem?_map, List.getElem?_eq_getElem (by simpa using hj)]
      simp

theorem startsWrittenOut_record (op : Operator) (inputs : List Value) (answer : RatMatrix)
    (note : Option String) {cell : Fin answer.rows → Fin answer.cols → String}
    (h : ∀ i j, Denotes .sum (cell i j).toList (answer.grid.get i j)) :
    StartsWrittenOut (Solution.record op inputs (.matrix answer) [⟨.matrix (answer.withDisplay
      (.custom (MatrixArithmetic.gridText answer.rows answer.cols cell))), note⟩]).stored :=
  ⟨answer.stored, _, note, rfl, rfl, writesOut_gridText answer h⟩

/-! ## Sums, differences and products -/

section

variable {m n : RatMatrix}

theorem startsWrittenOut_entrywise (op : Operator) (verb : String) (f : ℚ → ℚ → ℚ)
    (hf : ∀ x y, Denotes .sum (Written.binary .fraction op.symbol x y).toList (f x y))
    (mode : DisplayMode.resolve [m.display, n.display] = .fraction) {s : Solution}
    (h : MatrixArithmetic.entrywise op verb f m n = .ok s) : StartsWrittenOut s.stored := by
  unfold MatrixArithmetic.entrywise at h
  split at h
  · cases h
    refine startsWrittenOut_record _ _ _ _ fun i j => ?_
    rw [mode, Grid.get_ofFn]
    exact hf _ _
  · cases h

theorem denotes_dot {k : ℕ} (hk : 0 < k) (x y : Fin k → ℚ) :
    Denotes .sum (" + ".intercalate
        ((List.finRange k).map fun l => Written.product .fraction (x l) (y l))).toList
      ((List.finRange k).map fun l => x l * y l).sum := by
  have hne : List.finRange k ≠ [] := by simpa using hk.ne'
  have hsum := Formula.denotes_intercalate_plus hne fun l _ =>
    Written.denotes_product (x l) (y l)
  simpa [String.toList_intercalate, Function.comp_def] using hsum

theorem startsWrittenOut_multiply
    (mode : DisplayMode.resolve [m.display, n.display] = .fraction) {s : Solution}
    (h : MatrixArithmetic.multiply m n = .ok s) : StartsWrittenOut s.stored := by
  unfold MatrixArithmetic.multiply at h
  split at h
  · cases h
    refine startsWrittenOut_record _ _ _ _ fun i j => ?_
    rw [mode, Grid.mul, Grid.get_ofFn, Grid.foldl_add_finRange, Fin.sum_univ_def]
    exact denotes_dot m.cols_pos _ _
  · cases h

theorem startsWrittenOut_scale {side : MatrixArithmetic.Side} {x : Scalar}
    (mode : DisplayMode.resolve [x.display, m.display] = .fraction) {s : Solution}
    (h : MatrixArithmetic.scale side x m = .ok s) : StartsWrittenOut s.stored := by
  cases h
  refine startsWrittenOut_record _ _ _ _ fun i j => ?_
  rw [mode, Grid.get_ofFn]
  exact (Written.denotes_product _ _).term

end

/-! ## Determinants -/

theorem denotes_signedProduct (swaps : ℕ) {pivots : List ℚ} (hne : pivots ≠ []) :
    ∃ text, Elimination.productNote .fraction swaps pivots = "det = " ++ text ∧
      Denotes .sum text.toList (Elimination.signedProduct swaps pivots) := by
  have hone : Denotes .factor "(-1)".toList (-1) :=
    (Formula.denotes_toDigits 1).single.negative.brackets
  have hpower := (hone.power (Numeral.digits_toDigits swaps)).single.blankAfter
  have hpivots := Formula.denotes_intercalate_times hne fun q _ => Written.denotes_operand q
  refine ⟨"(-1)^" ++ swaps.repr ++ " * " ++
    " * ".intercalate (pivots.map (Written.operand .fraction)), ?_, ?_⟩
  · rw [← String.toList_inj]
    simp [Elimination.productNote]
  · rw [Elimination.signedProduct_eq]
    have hmul := (hpower.mul hpivots.blankBefore).term
    simpa [String.toList_intercalate, Function.comp_def] using hmul

/-- How many columns receive a pivot when a determinant is worked. -/
def countPivots (a : StoredMatrix) : Except StoredFault ℕ := do
  let s ← reduce (displayOf a) a.rows (← a.toRows)
  pure s.pivotColumns.length

/-- Every column of a square matrix receives a pivot. -/
def FullPivots (a : StoredMatrix) : Prop :=
  countPivots a = .ok a.rows

instance : DecidablePred FullPivots := fun _ => inferInstanceAs (Decidable (_ = _))

theorem countPivots_stored {m : RatMatrix} (square : m.rows = m.cols) :
    countPivots m.stored =
      .ok (WorkedAlgebra.reduce (List.finRange m.cols) m.grid).pivots.length := by
  rw [countPivots, toRows_reduce m _ m.stored.rows square, Sweep.of, length_map_pivotColumns]
  rfl

theorem closesWrittenOut_determinant {m : RatMatrix}
    (mode : DisplayMode.resolve [m.display] = .fraction) (square : m.rows = m.cols)
    (full : FullPivots m.stored) : ∃ s, determinant m.stored = .ok s ∧ ClosesWrittenOut s := by
  obtain ⟨n, k, g, d, hn, hk⟩ := m
  obtain rfl : n = k := square
  have hlength := Except.ok.inj ((countPivots_stored rfl).symm.trans full)
  have hne : (WorkedAlgebra.reduce (List.finRange n) g).pivots.map Prod.snd ≠ [] := fun h => by
    rw [List.map_eq_nil_iff.mp h] at hlength
    exact hn.ne hlength
  obtain ⟨text, hnote, hdenotes⟩ :=
    denotes_signedProduct (WorkedAlgebra.reduce (List.finRange n) g).swaps hne
  obtain ⟨earlier, hsolved⟩ := Elimination.outcome_determinant_of_full g d hn hk hlength
  rw [determinant_stored, hsolved]
  refine ⟨_, rfl, _, earlier.map Step.stored, text, rfl, ?_, hdenotes.iff_eq⟩
  rw [Solution.stored_record, mode, hnote, List.map_append]
  exact List.append_assoc _ _ _

/-! ## What is written -/

/-- **Steps denote answers.** Outside decimal mode sums, differences, products and multiples are
written out entry by entry, and determinants close with a formula. -/
theorem steps_denote_answers {a b : StoredMatrix} (ha : a.WellFormed) (hb : b.WellFormed)
    (hda : a.display ≠ .decimal) (hdb : b.display ≠ .decimal) :
    (∀ s, plus a b = .ok s → StartsWrittenOut s) ∧
      (∀ s, minus a b = .ok s → StartsWrittenOut s) ∧
      (∀ s, multiply a b = .ok s → StartsWrittenOut s) ∧
      (∀ side x, x.display ≠ .decimal → ∀ s, scale side x a = .ok s → StartsWrittenOut s) ∧
      (a.rows = a.cols → FullPivots a → ∃ s, determinant a = .ok s ∧ ClosesWrittenOut s) := by
  obtain ⟨m, rfl⟩ := ha.exists_stored
  obtain ⟨n, rfl⟩ := hb.exists_stored
  have hm : DisplayMode.decimal ≠ m.display := hda.symm
  have hn : DisplayMode.decimal ≠ n.display := hdb.symm
  have mode : DisplayMode.resolve [m.display, n.display] = .fraction :=
    DisplayMode.resolve_eq_fraction (by simp [hm, hn])
  refine ⟨fun s hs => ?_, fun s hs => ?_, fun s hs => ?_, fun side x hx s hs => ?_,
    fun square full => ?_⟩
  · rw [plus_stored] at hs
    obtain ⟨t, ht, rfl⟩ := exists_of_storedResult hs
    exact startsWrittenOut_entrywise .matrixPlus "add" _ Written.denotes_plus mode ht
  · rw [minus_stored] at hs
    obtain ⟨t, ht, rfl⟩ := exists_of_storedResult hs
    exact startsWrittenOut_entrywise .matrixMinus "subtract" _ Written.denotes_minus mode ht
  · rw [multiply_stored] at hs
    obtain ⟨t, ht, rfl⟩ := exists_of_storedResult hs
    exact startsWrittenOut_multiply mode ht
  · rw [scale_stored] at hs
    obtain ⟨t, ht, rfl⟩ := exists_of_storedResult hs
    exact startsWrittenOut_scale (DisplayMode.resolve_eq_fraction (by simp [hx.symm, hm])) ht
  · exact closesWrittenOut_determinant (DisplayMode.resolve_eq_fraction (by simp [hm])) square full

/-- Negative numbers and fractions in products, and in a determinant that needs an exchange of
rows. -/
theorem steps_denote_answers_of_exchange :
    let a : StoredMatrix := ⟨2, 2, [0, -1 / 2, 3, 4], .fraction⟩
    let b : StoredMatrix := ⟨2, 1, [2, -3], .custom "B"⟩
    let x : Scalar := ⟨-3, .fraction⟩
    let product : StoredMatrix := ⟨2, 1, [3 / 2, -6], .fraction⟩
    let multiple : StoredMatrix := ⟨2, 2, [0, 3 / 2, -9, -12], .fraction⟩
    let s : StoredSolution := .record .matrixMultiply [.matrix a, .matrix b] (.matrix product)
      [⟨.matrix (product.withDisplay (.custom "[[0*2 + (-1/2)*(-3)], [3*2 + 4*(-3)]]")),
        some "each entry is a row of the left matrix times a column of the right matrix"⟩]
    let t : StoredSolution := .record .scalarMatrixMultiply [.scalar x, .matrix a] (.matrix multiple)
      [⟨.matrix (multiple.withDisplay (.custom "[[(-3)*0, (-3)*(-1/2)], [(-3)*3, (-3)*4]]")), none⟩]
    a.WellFormed ∧ b.WellFormed ∧ a.display ≠ .decimal ∧ b.display ≠ .decimal ∧
      multiply a b = .ok s ∧ StartsWrittenOut s ∧
      x.display ≠ .decimal ∧ scale .left x a = .ok t ∧ StartsWrittenOut t ∧
      a.rows = a.cols ∧ FullPivots a ∧ ∃ s, determinant a = .ok s ∧ ClosesWrittenOut s := by
  intro a b x product multiple s t
  have ha : a.WellFormed := by decide
  have hb : b.WellFormed := by decide
  have hda : a.display ≠ .decimal := by decide
  have hdb : b.display ≠ .decimal := by decide
  have hdx : x.display ≠ .decimal := by decide
  have multiplied : multiply a b = .ok s := by decide +kernel
  have scaled : scale .left x a = .ok t := by decide +kernel
  have full : FullPivots a := by decide +kernel
  obtain ⟨-, -, hmultiply, hscale, hdeterminant⟩ := steps_denote_answers ha hb hda hdb
  exact ⟨ha, hb, hda, hdb, multiplied, hmultiply s multiplied, hdx, scaled,
    hscale .left x hdx t scaled, rfl, full, hdeterminant rfl full⟩

/-- In decimal mode a pivot is written by its decimal text, which is not always exact. -/
theorem decimal_determinant_misread :
    let answer : Scalar := ⟨9007199254740993, .decimal⟩
    let a : StoredMatrix := ⟨1, 1, [answer.value], .decimal⟩
    let note := "det = (-1)^0 * 9007199254740992"
    let scaled : StoredStep := ⟨.matrix ⟨1, 1, [1], .decimal⟩, some "R1 = (1/9007199254740993)R1"⟩
    let s : StoredSolution := .record .determinant [.matrix a] (.scalar answer)
      [scaled, ⟨.scalar ⟨answer.value, .custom note⟩, some note⟩]
    a.WellFormed ∧ a.rows = a.cols ∧ FullPivots a ∧ determinant a = .ok s ∧
      ¬ ClosesWrittenOut s := by
  intro answer a note scaled s
  refine ⟨by decide, rfl, by decide +kernel, by decide +kernel, ?_⟩
  rintro ⟨answer', earlier, text, hanswer, hsteps, hdenotes⟩
  have hvalue : answer'.value = 9007199254740993 := by
    cases hanswer
    rfl
  have htext : text = "(-1)^0 * 9007199254740992" := by
    have hnote : note = "det = " ++ text := by
      simpa [s, StoredSolution.record] using
        congrArg (fun steps => steps.dropLast.getLast?.bind StoredStep.note) hsteps
    exact (String.append_right_inj "det = ").mp hnote.symm
  have hread := ((hdenotes _).mpr rfl).value?_eq
  rw [htext, hvalue] at hread
  revert hread
  decide +kernel

end Stored
end WorkedAlgebra
