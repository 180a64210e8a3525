import Mathlib.Algebra.Order.Ring.Nat
import WorkedAlgebra.Proofs.Loop
import WorkedAlgebra.Proofs.Value.Entries
import WorkedAlgebra.Value.Block

/-!
# Matrices of number texts

* **`RatMatrix.ofTexts_reads`**: rectangular rows of number texts make the matrix of their numbers,
  and the first defect of other rows is reported.
-/

namespace WorkedAlgebra.RatMatrix

/-! ## Reading at word positions -/

section Words

variable {m : RatMatrix} (fits : m.rows * m.cols < UInt64.size)
include fits

theorem toNat_mul_cols {a : UInt64} (ha : a.toNat ≤ m.rows) :
    (a * m.cols.toUInt64).toNat = a.toNat * m.cols := by
  have hcols : m.cols < UInt64.size := lt_of_le_of_lt (Nat.le_mul_of_pos_left _ m.rows_pos) fits
  have hle : a.toNat * m.cols < UInt64.size :=
    lt_of_le_of_lt (Nat.mul_le_mul_right m.cols ha) fits
  rw [UInt64.toNat_mul, Nat.toUInt64, UInt64.toNat_ofNat', Nat.mod_eq_of_lt hcols,
    Nat.mod_eq_of_lt hle]

/-- **An entry is read at its row and its column** if the number of entries fits a word. -/
theorem entryAt?_eq {r c : UInt64} (hr : r.toNat < m.rows) (hc : c.toNat < m.cols) :
    m.entryAt? r c = some (m.grid.get ⟨r.toNat, hr⟩ ⟨c.toNat, hc⟩) := by
  have hplace : (r * m.cols.toUInt64 + c).toNat = r.toNat * m.cols + c.toNat := by
    have hle := Nat.mul_le_mul_right m.cols (Nat.succ_le_of_lt hr)
    have hlt : r.toNat * m.cols + c.toNat < UInt64.size := by
      rw [Nat.succ_mul] at hle
      omega
    rw [UInt64.toNat_add, toNat_mul_cols fits hr.le, Nat.mod_eq_of_lt hlt]
  rw [entryAt?, hplace]
  exact m.grid.getElem?_entries ⟨r.toNat, hr⟩ ⟨c.toNat, hc⟩

/-- **A row is read at its position** if the number of entries fits a word. -/
theorem rowAt?_eq {r : UInt64} (hr : r.toNat < m.rows) :
    m.rowAt? r = some (m.grid.row ⟨r.toNat, hr⟩) := by
  have hsucc : (r + 1).toNat = r.toNat + 1 := by
    have hrows : m.rows < UInt64.size := lt_of_le_of_lt (Nat.le_mul_of_pos_right _ m.cols_pos) fits
    have h1 : (1 : UInt64).toNat = 1 := rfl
    rw [UInt64.toNat_add, h1, Nat.mod_eq_of_lt (lt_of_le_of_lt (Nat.succ_le_of_lt hr) hrows)]
  have hstop : ((r + 1) * m.cols.toUInt64).toNat = (r.toNat + 1) * m.cols := by
    rw [toNat_mul_cols fits (by omega), hsucc]
  have hle : r.toNat * m.cols ≤ (r.toNat + 1) * m.cols :=
    Nat.mul_le_mul_right _ (Nat.le_succ _)
  have hlast : (r.toNat + 1) * m.cols ≤ m.grid.entries.length := by
    rw [Grid.length_entries]
    exact Nat.mul_le_mul_right _ hr
  rw [rowAt?, toNat_mul_cols fits hr.le, hstop]
  exact (if_pos ⟨hle, hlast⟩).trans (congrArg some (m.grid.take_drop_entries ⟨r.toNat, hr⟩))

end Words

/-! ## Matrices of rows -/

/-- **The first length that differs from the one at the start.** -/
structure RaggedAt (lengths : List ℕ) (i w n : ℕ) : Prop where
  start : lengths[0]? = some w
  differs : lengths[i]? = some n
  uneven : n ≠ w
  least : ∀ k < i, lengths[k]? = some w

theorem RaggedAt.unique {lengths : List ℕ} {i w n i' w' n' : ℕ} (h : RaggedAt lengths i w n)
    (h' : RaggedAt lengths i' w' n') : i = i' ∧ w = w' ∧ n = n' := by
  obtain rfl : w = w' := Option.some.inj (h.start.symm.trans h'.start)
  rcases Nat.lt_trichotomy i i' with hi | rfl | hi
  · exact absurd (Option.some.inj (h.differs.symm.trans (h'.least i hi))) h.uneven
  · exact ⟨rfl, rfl, Option.some.inj (h.differs.symm.trans h'.differs)⟩
  · exact absurd (Option.some.inj (h'.differs.symm.trans (h.least i' hi))) h'.uneven

section Rows

variable {rows : List (List ℚ)} {display : DisplayMode}

theorem ofRows_eq_ok_iff {m : RatMatrix} :
    ofRows rows display = .ok m ↔ m.grid.toRows = rows ∧ m.display = display := by
  constructor
  · intro h
    unfold ofRows at h
    split at h
    · next even =>
      split at h
      · obtain rfl := Except.ok.inj h
        exact ⟨Grid.toRows_ofRows rows even, rfl⟩
      · cases h
    · cases h
  · rintro ⟨rfl, rfl⟩
    exact m.ofRows_toRows

theorem raggedAt_findIdx (uneven : ¬ ∀ row ∈ rows, row.length = widthOf rows) :
    let i := rows.findIdx fun row => row.length != widthOf rows
    RaggedAt (rows.map List.length) i (widthOf rows) (rows.getD i []).length := by
  intro i
  obtain ⟨row, hrow, hne⟩ : ∃ row ∈ rows, row.length ≠ widthOf rows := by simpa using uneven
  have hi : i < rows.length := List.findIdx_lt_length_of_exists ⟨row, hrow, by simpa using hne⟩
  refine ⟨?_, ?_, ?_, fun k hk => ?_⟩
  · cases rows with
    | nil => cases hrow
    | cons first rows => rfl
  · simp [hi]
  · have h := List.findIdx_getElem (w := hi)
    rw [List.getD_eq_getElem?_getD, List.getElem?_eq_getElem hi, Option.getD_some]
    simpa using h
  · have h := List.not_of_lt_findIdx hk
    simp only [List.getElem?_map, List.getElem?_eq_getElem (hk.trans hi), Option.map_some]
    simpa using h

theorem forall_length_eq_zero_iff :
    (∀ row ∈ rows, row.length = 0) ↔
      (∀ row ∈ rows, row.length = widthOf rows) ∧ ¬ (0 < rows.length ∧ 0 < widthOf rows) := by
  cases rows with
  | nil => simp
  | cons first rows =>
    have hw : widthOf (first :: rows) = first.length := rfl
    rw [hw]
    constructor
    · intro h
      have hfirst := h first List.mem_cons_self
      exact ⟨fun row hrow => (h row hrow).trans hfirst.symm, by omega⟩
    · rintro ⟨h, hsize⟩ row hrow
      have := h row hrow
      simp only [List.length_cons] at hsize
      omega

theorem ofRows_eq_error_iff {fault : ValueFault} :
    ofRows rows display = .error fault ↔
      (∃ i w n, fault = .raggedRows i w n ∧ RaggedAt (rows.map List.length) i w n) ∨
        fault = .emptyMatrix ∧ ∀ row ∈ rows, row.length = 0 := by
  unfold ofRows
  by_cases even : ∀ row ∈ rows, row.length = widthOf rows
  · have hragged : ∀ i w n, ¬ RaggedAt (rows.map List.length) i w n := by
      intro i w n h
      obtain ⟨row, hrow, hn⟩ := List.mem_map.mp (List.mem_of_getElem? h.differs)
      obtain ⟨first, hfirst, hw⟩ := List.mem_map.mp (List.mem_of_getElem? h.start)
      exact h.uneven (by rw [← hn, ← hw, even row hrow, even first hfirst])
    rw [dif_pos even, forall_length_eq_zero_iff]
    by_cases size : 0 < rows.length ∧ 0 < widthOf rows
    · simp [size, hragged]
    · rw [dif_neg size]
      simp only [hragged, and_false, exists_false, false_or, Except.error.injEq]
      exact ⟨fun h => ⟨h.symm, even, size⟩, fun h => h.1.symm⟩
  · have h := raggedAt_findIdx even
    rw [dif_neg even, forall_length_eq_zero_iff]
    constructor
    · intro hfault
      exact .inl ⟨_, _, _, (Except.error.inj hfault).symm, h⟩
    · rintro (⟨i, w, n, rfl, h'⟩ | ⟨-, h', -⟩)
      · obtain ⟨rfl, rfl, rfl⟩ := h'.unique h
        rfl
      · exact absurd h' even

end Rows

/-! ## Matrices of texts -/

def AreNumbers (rows : List (List String)) : Prop :=
  ∀ t ∈ rows.flatten, ∃ q, Numeral.number? t.toList = some q

/-- There is a row, and all rows are equally long and not empty. -/
def Rectangular (rows : List (List String)) : Prop :=
  rows ≠ [] ∧ ∃ c, 0 < c ∧ ∀ row ∈ rows, row.length = c

/-- The numbers that rows of texts denote, in their places. -/
def Grids (rows : List (List String)) (numbers : List (List ℚ)) : Prop :=
  List.Forall₂ (List.Forall₂ fun t q => Numeral.number? t.toList = some q) rows numbers

/-- **The first defect of rows that make no matrix**: a text that denotes no number, else an uneven
row, else that there is no entry. -/
inductive FirstDefect (rows : List (List String)) : ValueFault → Prop
  | invalidNumber {before : List String} {t : String} {after : List String}
      (place : rows.flatten = before ++ t :: after)
      (good : ∀ s ∈ before, ∃ q, Numeral.number? s.toList = some q)
      (bad : Numeral.number? t.toList = none) : FirstDefect rows (.invalidNumber t)
  | raggedRows {i w n : ℕ} (numbers : AreNumbers rows)
      (ragged : RaggedAt (rows.map List.length) i w n) : FirstDefect rows (.raggedRows i w n)
  | emptyMatrix (numbers : AreNumbers rows) (empty : ∀ row ∈ rows, row.length = 0) :
      FirstDefect rows .emptyMatrix

/-- A matrix **holds the numbers of texts**, in their places, and is shown as asked. -/
structure Holds (rows : List (List String)) (display : Option DisplayMode) (m : RatMatrix) :
    Prop where
  rows_eq : m.rows = rows.length
  cols_eq : ∀ row ∈ rows, row.length = m.cols
  entry : ∀ (i : Fin m.rows) (j : Fin m.cols), ∃ row t, rows[i.val]? = some row ∧
    row[j.val]? = some t ∧ Numeral.number? t.toList = some (m.grid.get i j)
  toRows : Grids rows m.grid.toRows
  entryAt : m.rows * m.cols < UInt64.size → ∀ (r c : UInt64) (row : List String) (t : String),
    rows[r.toNat]? = some row → row[c.toNat]? = some t →
      m.entryAt? r c = Numeral.number? t.toList
  rowAt : m.rows * m.cols < UInt64.size → ∀ (r : UInt64) (row : List String),
    rows[r.toNat]? = some row → ∃ ns, m.rowAt? r = some ns ∧
      List.Forall₂ (fun t q => Numeral.number? t.toList = some q) row ns
  display_eq : m.display = display.getD (.ofTexts rows.flatten)

theorem parseNumber_eq_ok_iff {t : String} {q : ℚ} :
    parseNumber t = .ok q ↔ Numeral.number? t.toList = some q := by
  unfold parseNumber
  cases Numeral.number? t.toList <;> simp

theorem parseNumber_eq_error_iff {t : String} {fault : ValueFault} :
    parseNumber t = .error fault ↔
      Numeral.number? t.toList = none ∧ fault = .invalidNumber t := by
  unfold parseNumber
  cases Numeral.number? t.toList <;> simp [eq_comm]

variable {rows : List (List String)} {display : Option DisplayMode}

theorem grids_iff {numbers : List (List ℚ)} :
    (rows.mapM fun row => row.mapM parseNumber) = .ok numbers ↔ Grids rows numbers := by
  simp only [mapM_eq_ok_iff, parseNumber_eq_ok_iff, Grids]

theorem Grids.map_length {numbers : List (List ℚ)} (h : Grids rows numbers) :
    numbers.map List.length = rows.map List.length := by
  induction h with
  | nil => rfl
  | cons h _ ih => rw [List.map_cons, List.map_cons, h.length_eq, ih]

theorem getElem?_of_forall₂ {α β : Type} {R : α → β → Prop} {l : List α} {bs : List β}
    (h : List.Forall₂ R l bs) {i : ℕ} {a : α} (ha : l[i]? = some a) :
    ∃ b, bs[i]? = some b ∧ R a b := by
  obtain ⟨hi, rfl⟩ := List.getElem?_eq_some_iff.mp ha
  have hi' : i < bs.length := h.length_eq ▸ hi
  exact ⟨bs[i], List.getElem?_eq_getElem hi', h.get hi hi'⟩

theorem Grids.areNumbers {numbers : List (List ℚ)} (h : Grids rows numbers) : AreNumbers rows := by
  intro t ht
  obtain ⟨i, hi⟩ := List.getElem?_of_mem ht
  obtain ⟨q, -, hq⟩ := getElem?_of_forall₂ (List.rel_flatten h) hi
  exact ⟨q, hq⟩

theorem numbers_eq_error_iff {fault : ValueFault} :
    (rows.mapM fun row => row.mapM parseNumber) = .error fault ↔
      ∃ before t after, rows.flatten = before ++ t :: after ∧
        (∀ s ∈ before, ∃ q, Numeral.number? s.toList = some q) ∧
        Numeral.number? t.toList = none ∧ fault = .invalidNumber t := by
  rw [mapM_mapM_eq_error_iff]
  simp only [mapM_eq_error_iff, parseNumber_eq_ok_iff, parseNumber_eq_error_iff]

theorem AreNumbers.exists_grids (h : AreNumbers rows) : ∃ numbers, Grids rows numbers := by
  cases hn : rows.mapM fun row => row.mapM parseNumber with
  | ok numbers => exact ⟨numbers, grids_iff.mp hn⟩
  | error fault =>
    obtain ⟨before, t, after, hplace, -, hbad, -⟩ := numbers_eq_error_iff.mp hn
    obtain ⟨q, hq⟩ := h t (by rw [hplace]; simp)
    rw [hbad] at hq
    cases hq

theorem ofTexts_eq_ok_iff {m : RatMatrix} :
    ofTexts rows display = .ok m ↔
      Grids rows m.grid.toRows ∧ m.display = display.getD (.ofTexts rows.flatten) := by
  unfold ofTexts
  simp only [Traced.bind_eq_ok_iff, grids_iff, ofRows_eq_ok_iff]
  constructor
  · rintro ⟨numbers, h, rfl, hd⟩
    exact ⟨h, hd⟩
  · rintro ⟨h, hd⟩
    exact ⟨_, h, rfl, hd⟩

theorem Grids.forall_length_eq_zero_iff {numbers : List (List ℚ)} (h : Grids rows numbers) :
    (∀ row ∈ numbers, row.length = 0) ↔ ∀ row ∈ rows, row.length = 0 := by
  have hlengths : ∀ {α : Type} (ls : List (List α)),
      (∀ l ∈ ls, l.length = 0) ↔ ∀ n ∈ ls.map List.length, n = 0 := fun ls => by simp
  rw [hlengths, hlengths, h.map_length]

/-- **The first defect is reported.** -/
theorem ofTexts_eq_error_iff {fault : ValueFault} :
    ofTexts rows display = .error fault ↔ FirstDefect rows fault := by
  unfold ofTexts
  simp only [Traced.bind_eq_error_iff, grids_iff, numbers_eq_error_iff, ofRows_eq_error_iff]
  constructor
  · rintro (⟨before, t, after, hplace, hgood, hbad, rfl⟩ |
      ⟨numbers, h, ⟨i, w, n, rfl, hragged⟩ | ⟨rfl, hempty⟩⟩)
    · exact .invalidNumber hplace hgood hbad
    · exact .raggedRows h.areNumbers (h.map_length ▸ hragged)
    · exact .emptyMatrix h.areNumbers (h.forall_length_eq_zero_iff.mp hempty)
  · rintro (⟨hplace, hgood, hbad⟩ | ⟨hnumbers, hragged⟩ | ⟨hnumbers, hempty⟩)
    · exact .inl ⟨_, _, _, hplace, hgood, hbad, rfl⟩
    · obtain ⟨numbers, h⟩ := hnumbers.exists_grids
      exact .inr ⟨numbers, h, .inl ⟨_, _, _, rfl, h.map_length ▸ hragged⟩⟩
    · obtain ⟨numbers, h⟩ := hnumbers.exists_grids
      exact .inr ⟨numbers, h, .inr ⟨rfl, h.forall_length_eq_zero_iff.mpr hempty⟩⟩

theorem Grids.row {m : RatMatrix} (h : Grids rows m.grid.toRows) {i : ℕ} {row : List String}
    (hrow : rows[i]? = some row) : ∃ hi : i < m.rows,
      List.Forall₂ (fun t q => Numeral.number? t.toList = some q) row (m.grid.row ⟨i, hi⟩) := by
  obtain ⟨ns, hns, hnumbers⟩ := getElem?_of_forall₂ h hrow
  obtain ⟨hi, -⟩ := List.getElem?_eq_some_iff.mp hns
  rw [Grid.length_toRows] at hi
  obtain rfl := Option.some.inj ((m.grid.getElem?_toRows ⟨i, hi⟩).symm.trans hns)
  exact ⟨hi, hnumbers⟩

theorem Grids.entry {m : RatMatrix} (h : Grids rows m.grid.toRows) {i j : ℕ} {row : List String}
    {t : String} (hrow : rows[i]? = some row) (ht : row[j]? = some t) :
    ∃ (hi : i < m.rows) (hj : j < m.cols),
      Numeral.number? t.toList = some (m.grid.get ⟨i, hi⟩ ⟨j, hj⟩) := by
  obtain ⟨hi, hnumbers⟩ := h.row hrow
  obtain ⟨q, hq, hnumber⟩ := getElem?_of_forall₂ hnumbers ht
  obtain ⟨hj, -⟩ := List.getElem?_eq_some_iff.mp hq
  rw [Grid.length_row] at hj
  obtain rfl := Option.some.inj ((m.grid.getElem?_row ⟨i, hi⟩ ⟨j, hj⟩).symm.trans hq)
  exact ⟨hi, hj, hnumber⟩

theorem Grids.holds {m : RatMatrix} (h : Grids rows m.grid.toRows)
    (hd : m.display = display.getD (.ofTexts rows.flatten)) : Holds rows display m := by
  have hrows : m.rows = rows.length := by rw [h.length_eq, Grid.length_toRows]
  have hcols : ∀ row ∈ rows, row.length = m.cols := by
    intro row hrow
    obtain ⟨i, hi⟩ := List.getElem?_of_mem hrow
    obtain ⟨hlt, hnumbers⟩ := h.row hi
    rw [hnumbers.length_eq, Grid.length_row]
  refine ⟨hrows, hcols, fun i j => ?_, h, fun fits r c row t hrow ht => ?_,
    fun fits r row hrow => ?_, hd⟩
  · have hi : i.val < rows.length := hrows ▸ i.isLt
    have hj : j.val < rows[i.val].length := (hcols _ (List.getElem_mem hi)).symm ▸ j.isLt
    have hrow := List.getElem?_eq_getElem hi
    have ht := List.getElem?_eq_getElem hj
    obtain ⟨_, _, hnumber⟩ := h.entry hrow ht
    exact ⟨_, _, hrow, ht, hnumber⟩
  · obtain ⟨hi, hj, hnumber⟩ := h.entry hrow ht
    rw [entryAt?_eq fits hi hj, hnumber]
  · obtain ⟨hi, hnumbers⟩ := h.row hrow
    exact ⟨_, rowAt?_eq fits hi, hnumbers⟩

theorem Holds.rectangular {m : RatMatrix} (h : Holds rows display m) : Rectangular rows := by
  refine ⟨?_, m.cols, m.cols_pos, h.cols_eq⟩
  rintro rfl
  exact absurd h.rows_eq m.rows_pos.ne'

theorem FirstDefect.not_rectangular {fault : ValueFault} (h : FirstDefect rows fault)
    (hrect : Rectangular rows) : ¬ AreNumbers rows := by
  intro hnumbers
  obtain ⟨hne, c, hc, hlength⟩ := hrect
  cases h with
  | @invalidNumber before t after place good bad =>
    obtain ⟨q, hq⟩ := hnumbers t (by rw [place]; simp)
    rw [bad] at hq
    cases hq
  | raggedRows _ ragged =>
    have hall : ∀ n ∈ rows.map List.length, n = c := by simpa using hlength
    exact ragged.uneven ((hall _ (List.mem_of_getElem? ragged.differs)).trans
      (hall _ (List.mem_of_getElem? ragged.start)).symm)
  | emptyMatrix _ empty =>
    obtain ⟨row, _, rfl⟩ := List.exists_cons_of_ne_nil hne
    have h₁ := hlength row List.mem_cons_self
    have h₂ := empty row List.mem_cons_self
    omega

/-- **Rectangular rows of number texts make the matrix of their numbers**, and no other rows make
one. The first defect of other rows is reported. -/
theorem ofTexts_reads (rows : List (List String)) (display : Option DisplayMode) :
    ((∃ m, ofTexts rows display = .ok m) ↔ Rectangular rows ∧ AreNumbers rows) ∧
      (∀ m, ofTexts rows display = .ok m → Holds rows display m) ∧
      ∀ fault, ofTexts rows display = .error fault ↔ FirstDefect rows fault := by
  have hholds : ∀ m, ofTexts rows display = .ok m → Holds rows display m := fun m h => by
    obtain ⟨hgrids, hd⟩ := ofTexts_eq_ok_iff.mp h
    exact hgrids.holds hd
  refine ⟨⟨?_, ?_⟩, hholds, fun fault => ofTexts_eq_error_iff⟩
  · rintro ⟨m, h⟩
    exact ⟨(hholds m h).rectangular, (hholds m h).toRows.areNumbers⟩
  · rintro ⟨hrect, hnumbers⟩
    cases h : ofTexts rows display with
    | ok m => exact ⟨m, rfl⟩
    | error fault =>
      exact absurd hnumbers ((ofTexts_eq_error_iff.mp h).not_rectangular hrect)

/-- Texts of each layout in two rows, and a bad text in rows that are uneven as well. -/
theorem ofTexts_reads_of_layouts :
    (∃ m, ofTexts [["1", "1/2"], ["-0.5", "3"]] none = .ok m ∧
        Holds [["1", "1/2"], ["-0.5", "3"]] none m) ∧
      FirstDefect [["1", "2"], ["x"], []] (.invalidNumber "x") := by
  have hreads := ofTexts_reads [["1", "1/2"], ["-0.5", "3"]] none
  have hok : (ofTexts [["1", "1/2"], ["-0.5", "3"]] none).isOk := by decide +kernel
  obtain ⟨m, hm⟩ : ∃ m, ofTexts [["1", "1/2"], ["-0.5", "3"]] none = .ok m := by
    cases h : ofTexts [["1", "1/2"], ["-0.5", "3"]] none with
    | ok m => exact ⟨m, rfl⟩
    | error fault => rw [h] at hok; cases hok
  exact ⟨⟨m, hm, hreads.2.1 m hm⟩,
    ((ofTexts_reads [["1", "2"], ["x"], []] none).2.2 (.invalidNumber "x")).mp (by decide +kernel)⟩

end WorkedAlgebra.RatMatrix
