import WorkedAlgebra.Proofs.Number.Numeral
import WorkedAlgebra.Value.RatMatrix

/-!
# The cells of a grid in brackets

* **`cellsOf_bracketed`**, **`bracketed_append_inj`**: cells without commas and square brackets are
  read back from a grid in brackets, and told from what stands behind it.
-/

namespace WorkedAlgebra

/-- What stands behind the last opening bracket of a text. -/
def behindBracket (cs : List Char) : List Char :=
  (cs.reverse.takeWhile (· != '[')).reverse

/-- The cells between the brackets of one row, a comma and a blank between two of them. -/
def cellsOfRow (cs : List Char) : List String :=
  ((' ' :: cs).splitOn ',').map fun cell => String.ofList cell.tail

/-- The cells of a grid in brackets. -/
def cellsOf (text : String) : List (List String) :=
  (text.toList.splitOn ']').dropLast.dropLast.map fun row => cellsOfRow (behindBracket row)

/-! ## Rows -/

theorem behindBracket_append {cs : List Char} (h : '[' ∉ cs) (before : List Char) :
    behindBracket (before ++ '[' :: cs) = cs := by
  have hne : ∀ c ∈ cs.reverse, (c != '[') = true := fun c hc => by
    simpa using fun hc' : c = '[' => h (hc' ▸ List.mem_reverse.mp hc)
  have hrev : (before ++ '[' :: cs).reverse = cs.reverse ++ '[' :: before.reverse := by simp
  rw [behindBracket, hrev, List.takeWhile_append_of_pos hne]
  simp

/-- The characters of a row, without its brackets. -/
def rowText (row : List String) : List Char :=
  [',', ' '].intercalate (row.map String.toList)

/-- A cell without commas and square brackets. -/
def PlainCell (cell : String) : Prop :=
  ',' ∉ cell.toList ∧ '[' ∉ cell.toList ∧ ']' ∉ cell.toList

theorem blank_intercalate (cell : List Char) (cells : List (List Char)) :
    ' ' :: [',', ' '].intercalate (cell :: cells) =
      [','].intercalate ((cell :: cells).map (' ' :: ·)) := by
  induction cells generalizing cell with
  | nil => simp [List.intercalate]
  | cons next cells ih =>
    have h := ih next
    simp_all [List.intercalate_cons_cons]

/-- **The cells of a row are read back.** -/
theorem cellsOfRow_rowText {row : List String} (hne : row ≠ [])
    (h : ∀ cell ∈ row, ',' ∉ cell.toList) : cellsOfRow (rowText row) = row := by
  cases row with
  | nil => exact absurd rfl hne
  | cons cell cells =>
    have hcomma : ∀ l ∈ ((cell :: cells).map String.toList).map (' ' :: ·), ',' ∉ l := by
      simpa using h
    rw [cellsOfRow, rowText, List.map_cons, blank_intercalate, ← List.map_cons (f := String.toList),
      List.splitOn_intercalate ',' hcomma (by simp)]
    simp [Function.comp_def]

theorem not_mem_intercalate {α : Type} {a : α} {sep : List α} (hsep : a ∉ sep)
    {parts : List (List α)} (h : ∀ part ∈ parts, a ∉ part) : a ∉ sep.intercalate parts := by
  induction parts with
  | nil => simp [List.intercalate]
  | cons part parts ih =>
    have hrest := ih fun part hp => h part (List.mem_cons_of_mem _ hp)
    cases parts with
    | nil => simpa [List.intercalate] using h
    | cons next parts =>
      rw [List.intercalate_cons_cons]
      simp [h part, hsep, hrest]

theorem not_mem_rowText {c : Char} (hc : c ∉ [',', ' ']) {row : List String}
    (h : ∀ cell ∈ row, c ∉ cell.toList) : c ∉ rowText row :=
  not_mem_intercalate hc (by simpa using h)

/-! ## Grids -/

theorem dropLast_dropLast {α : Type} (l : List α) (a b : α) :
    (l ++ [a, b]).dropLast.dropLast = l := by
  rw [List.append_cons, List.dropLast_concat, List.dropLast_concat]

theorem intercalate_rows (before : List Char) (row : List Char) (rows : List (List Char)) :
    before ++ [',', ' '].intercalate ((row :: rows).map fun r => '[' :: (r ++ [']'])) ++ [']'] =
      [']'].intercalate
        ((before ++ '[' :: row) :: rows.map (fun r => ',' :: ' ' :: '[' :: r) ++ [[], []]) := by
  induction rows generalizing before row with
  | nil => simp [List.intercalate]
  | cons next rows ih =>
    have h := ih [',', ' '] next
    simp_all [List.intercalate_cons_cons]

theorem toList_bracketed (rows : List (List String)) :
    (bracketed rows).toList =
      ['['] ++ [',', ' '].intercalate ((rows.map rowText).map fun r => '[' :: (r ++ [']'])) ++
        [']'] := by
  simp [bracketed, rowText, String.toList_intercalate, Function.comp_def]

/-- **The cells of a grid in brackets are read back.** -/
theorem cellsOf_bracketed {rows : List (List String)} (hne : rows ≠ [])
    (hrows : ∀ row ∈ rows, row ≠ []) (h : ∀ row ∈ rows, ∀ cell ∈ row, PlainCell cell) :
    cellsOf (bracketed rows) = rows := by
  have hopen : ∀ row ∈ rows, '[' ∉ rowText row := fun row hrow =>
    not_mem_rowText (by decide) fun cell hcell => (h row hrow cell hcell).2.1
  have hclose : ∀ row ∈ rows, ']' ∉ rowText row := fun row hrow =>
    not_mem_rowText (by decide) fun cell hcell => (h row hrow cell hcell).2.2
  have hread : ∀ row ∈ rows, cellsOfRow (rowText row) = row := fun row hrow =>
    cellsOfRow_rowText (hrows row hrow) fun cell hcell => (h row hrow cell hcell).1
  cases rows with
  | nil => exact absurd rfl hne
  | cons row rows =>
    have hclosed : ∀ l ∈ ('[' :: '[' :: rowText row) ::
        rows.map (fun r => ',' :: ' ' :: '[' :: rowText r) ++ [[], []], ']' ∉ l := by
      grind
    -- closing brackets end the rows, and nothing stands before or behind the last one
    have hsplit : (bracketed (row :: rows)).toList.splitOn ']' =
        ('[' :: '[' :: rowText row) :: rows.map (fun r => ',' :: ' ' :: '[' :: rowText r) ++
          [[], []] := by
      rw [toList_bracketed, List.map_cons, intercalate_rows, List.map_map]
      exact List.splitOn_intercalate ']' hclosed (by simp)
    have hrow : ∀ before, ∀ r ∈ row :: rows,
        cellsOfRow (behindBracket (before ++ '[' :: rowText r)) = r := fun before r hr => by
      rw [behindBracket_append (hopen r hr), hread r hr]
    have hfirst : cellsOfRow (behindBracket ('[' :: '[' :: rowText row)) = row :=
      hrow ['['] row List.mem_cons_self
    have hrest : ∀ r ∈ rows, cellsOfRow (behindBracket (',' :: ' ' :: '[' :: rowText r)) = r :=
      fun r hr => hrow [',', ' '] r (List.mem_cons_of_mem row hr)
    rw [cellsOf, hsplit, dropLast_dropLast, List.map_cons, hfirst, List.map_map]
    exact congrArg (row :: ·) ((List.map_congr_left hrest).trans (List.map_id rows))

/-! ## Grids before other text -/

theorem append_cons_inj {c : Char} {a b r r' : List Char} (ha : c ∉ a) (hb : c ∉ b)
    (h : a ++ c :: r = b ++ c :: r') : a = b ∧ r = r' := by
  have hsplit := congrArg (Numeral.splitAtFirst c) h
  rw [Numeral.splitAtFirst_append ha, Numeral.splitAtFirst_append hb] at hsplit
  exact Prod.ext_iff.mp (Option.some.inj hsplit)

/-- The rows behind the first one, and the bracket that closes the grid. -/
def laterRows : List (List Char) → List Char
  | [] => [']']
  | row :: rows => ',' :: ' ' :: '[' :: (row ++ ']' :: laterRows rows)

theorem toList_bracketed_cons (row : List String) (rows : List (List String)) :
    (bracketed (row :: rows)).toList =
      '[' :: '[' :: (rowText row ++ ']' :: laterRows (rows.map rowText)) := by
  have hrows : ∀ (r : List Char) (rs : List (List Char)),
      [',', ' '].intercalate ((r :: rs).map fun r => '[' :: (r ++ [']'])) ++ [']'] =
        '[' :: (r ++ ']' :: laterRows rs) := by
    intro r rs
    induction rs generalizing r with
    | nil => simp [List.intercalate, laterRows]
    | cons next rs ih =>
      have hnext := ih next
      rw [List.map_cons] at hnext
      rw [List.map_cons, List.map_cons, List.intercalate_cons_cons, List.append_assoc, hnext]
      simp [laterRows]
  rw [toList_bracketed, List.map_cons, List.append_assoc, hrows]
  rfl

theorem rest_eq_of_laterRows {rows rows' : List (List Char)} {r r' : List Char}
    (h : ∀ row ∈ rows, ']' ∉ row) (h' : ∀ row ∈ rows', ']' ∉ row)
    (heq : laterRows rows ++ r = laterRows rows' ++ r') : r = r' := by
  induction rows generalizing rows' with
  | nil =>
    cases rows' with
    | nil => simpa [laterRows] using heq
    | cons row' rows' => simp [laterRows] at heq
  | cons row rows ih =>
    cases rows' with
    | nil => simp [laterRows] at heq
    | cons row' rows' =>
      rw [List.forall_mem_cons] at h h'
      have hrow : row ++ ']' :: (laterRows rows ++ r) = row' ++ ']' :: (laterRows rows' ++ r') := by
        simpa [laterRows] using heq
      exact ih h.2 h'.2 (append_cons_inj h.1 h'.1 hrow).2

/-- **A grid in brackets is told from what stands behind it.** -/
theorem bracketed_append_inj {rows rows' : List (List String)} (hne : rows ≠ []) (hne' : rows' ≠ [])
    (hrows : ∀ row ∈ rows, row ≠ []) (hrows' : ∀ row ∈ rows', row ≠ [])
    (h : ∀ row ∈ rows, ∀ cell ∈ row, PlainCell cell)
    (h' : ∀ row ∈ rows', ∀ cell ∈ row, PlainCell cell) {r r' : List Char}
    (heq : (bracketed rows).toList ++ r = (bracketed rows').toList ++ r') :
    rows = rows' ∧ r = r' := by
  have hclose : ∀ {rows : List (List String)}, (∀ row ∈ rows, ∀ cell ∈ row, PlainCell cell) →
      ∀ l ∈ rows.map rowText, ']' ∉ l := by
    intro rows h l hl
    obtain ⟨row, hrow, rfl⟩ := List.mem_map.mp hl
    exact not_mem_rowText (by decide) fun cell hcell => (h row hrow cell hcell).2.2
  have hr : r = r' := by
    obtain ⟨row, rows, rfl⟩ := List.exists_cons_of_ne_nil hne
    obtain ⟨row', rows', rfl⟩ := List.exists_cons_of_ne_nil hne'
    have hc := hclose h
    have hc' := hclose h'
    rw [List.map_cons, List.forall_mem_cons] at hc hc'
    rw [toList_bracketed_cons, toList_bracketed_cons] at heq
    have hfirst : rowText row ++ ']' :: (laterRows (rows.map rowText) ++ r) =
        rowText row' ++ ']' :: (laterRows (rows'.map rowText) ++ r') := by
      simpa using heq
    exact rest_eq_of_laterRows hc.2 hc'.2 (append_cons_inj hc.1 hc'.1 hfirst).2
  subst hr
  have htext := congrArg cellsOf (String.toList_inj.mp (List.append_cancel_right heq))
  rw [cellsOf_bracketed hne hrows h, cellsOf_bracketed hne' hrows' h'] at htext
  exact ⟨htext, rfl⟩

end WorkedAlgebra
