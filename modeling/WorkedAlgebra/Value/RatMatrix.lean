import WorkedAlgebra.Value.Grid
import WorkedAlgebra.Value.Scalar

/-!
# Matrices

A matrix is a grid of rationals with at least one row and one column, together with the way it is
shown.
-/

namespace WorkedAlgebra

/-- A nonempty rectangular matrix and the way it is shown. -/
structure RatMatrix where
  rows : Nat
  cols : Nat
  grid : Grid rows cols
  display : DisplayMode
  rows_pos : 0 < rows
  cols_pos : 0 < cols
deriving DecidableEq, Repr

/-- Cells in brackets, row by row: `[[a, b], [c, d]]`. -/
def bracketed (rows : List (List String)) : String :=
  "[" ++ ", ".intercalate (rows.map fun row => "[" ++ ", ".intercalate row ++ "]") ++ "]"

namespace RatMatrix

/-- The width of a list of rows, which is that of its first row. -/
def widthOf (rows : List (List Rat)) : Nat :=
  (rows.head?.map List.length).getD 0

/-- The matrix of a list of rows. An uneven row is reported before an empty shape. -/
def ofRows (rows : List (List Rat)) (display : DisplayMode) : Except ValueFault RatMatrix :=
  if even : ∀ row ∈ rows, row.length = widthOf rows then
    if size : 0 < rows.length ∧ 0 < widthOf rows then
      .ok ⟨rows.length, widthOf rows, Grid.ofRows rows even, display, size.1, size.2⟩
    else .error .emptyMatrix
  else
    let i := rows.findIdx fun row => row.length != widthOf rows
    .error (.raggedRows i (widthOf rows) (rows.getD i []).length)

/-- The matrix of rows of number texts. A text that denotes no number is reported first. -/
def ofTexts (rows : List (List String)) (display : Option DisplayMode) :
    Except ValueFault RatMatrix := do
  let numbers ← rows.mapM fun row => row.mapM parseNumber
  ofRows numbers (display.getD (.ofTexts rows.flatten))

def isSquare (m : RatMatrix) : Bool :=
  m.rows == m.cols

theorem isSquare_iff {m : RatMatrix} : m.isSquare ↔ m.rows = m.cols :=
  beq_iff_eq

def withDisplay (m : RatMatrix) (display : DisplayMode) : RatMatrix :=
  { m with display }

def text (m : RatMatrix) : String :=
  match m.display with
  | .custom t => t
  | mode => bracketed (m.grid.toRows.map fun row => row.map mode.format)

end RatMatrix
end WorkedAlgebra
