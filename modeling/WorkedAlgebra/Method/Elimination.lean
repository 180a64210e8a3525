import WorkedAlgebra.Method.Fault
import WorkedAlgebra.Method.Reduction
import WorkedAlgebra.Traced

/-!
# Operations by elimination

Row reduction, rank, column space, inverse and determinant. The steps of a solution show the
matrix after every row operation, with the note that names the operation.
-/

namespace WorkedAlgebra.Elimination

variable {r c : Nat}

def reduced {ε : Type} (columns : List (Fin c)) (g : Grid r c) : Traced ε (Reduction r c) := do
  let s := reduce columns g
  .emit (.reduced s.pivots.length s.swaps s.ops.length)
  pure s

/-- The matrix after every row operation of a reduction, with its note. -/
def shown (g : Grid r c) (ops : List (RowOp r)) (display : DisplayMode) (hr : 0 < r)
    (hc : 0 < c) : List Step :=
  (RowOp.replay g ops).map fun p => .noted (.matrix ⟨r, c, p.2, display, hr, hc⟩) p.1.note

def displayOf (m : RatMatrix) : DisplayMode :=
  .resolve [m.display]

def notSquare (operation : String) (m : RatMatrix) : MethodFault :=
  .notSquare operation m.rows m.cols

def rowReduce (m : RatMatrix) : Traced MethodFault Solution := do
  let display := displayOf m
  let s ← reduced (List.finRange m.cols) m.grid
  pure (.record .rowReduce [.matrix m] (.matrix { m with grid := s.grid, display })
    (shown m.grid s.ops display m.rows_pos m.cols_pos))

def pivotCount (n : Nat) : String :=
  n.repr ++ " pivot column" ++ if n = 1 then "" else "s"

def rank (m : RatMatrix) : Traced MethodFault Solution := do
  let display := displayOf m
  let s ← reduced (List.finRange m.cols) m.grid
  let n := s.pivots.length
  pure (.record .rank [.matrix m] (.scalar ⟨(n : Rat), display⟩)
    (shown m.grid s.ops display m.rows_pos m.cols_pos ++
      [.noted (.matrix { m with grid := s.grid, display }) (pivotCount n)]))

/-- The columns of a matrix at the given positions; a single zero column if there are none. -/
def columnsAt (m : RatMatrix) (display : DisplayMode) : List (Fin m.cols) → RatMatrix
  | [] => ⟨m.rows, 1, .ofFn fun _ _ => 0, display, m.rows_pos, Nat.one_pos⟩
  | col :: cols =>
    ⟨m.rows, (col :: cols).length, .ofFn fun i k => m.grid.get i ((col :: cols).get k), display,
      m.rows_pos, by simp⟩

/-- Which columns are pivot columns, in words. -/
def basisNote {n : Nat} : List (Fin n) → String
  | [] => "no pivot columns; the column space is the zero vector"
  | cols => "pivot columns: " ++ ", ".intercalate (cols.map fun col => (col.val + 1).repr)

/-- A basis of the column space of a matrix: its pivot columns. -/
def columnSpace (m : RatMatrix) : Traced MethodFault Solution := do
  let display := displayOf m
  let s ← reduced (List.finRange m.cols) m.grid
  pure (.record .columnSpace [.matrix m] (.matrix (columnsAt m display s.pivotColumns))
    (shown m.grid s.ops display m.rows_pos m.cols_pos ++
      [.noted (.matrix { m with grid := s.grid, display }) (basisNote s.pivotColumns)]))

def augmented (m : RatMatrix) : Grid m.rows (m.cols + m.rows) :=
  m.grid.beside (.identity m.rows)

/-- The inverse of a matrix, found on the right of the matrix beside the identity. -/
def inverse (m : RatMatrix) : Traced MethodFault Solution :=
  if m.isSquare then do
    let display := displayOf m
    let wide : 0 < m.cols + m.rows := Nat.add_pos_left m.cols_pos _
    let g := augmented m
    let s ← reduced ((List.finRange m.cols).map (Fin.castAdd m.rows)) g
    if s.pivots.length < m.rows then .fail .singular
    else
      let answer : RatMatrix :=
        ⟨m.rows, m.rows, .ofFn fun i j => s.grid.get i (Fin.natAdd m.cols j), display, m.rows_pos,
          m.rows_pos⟩
      pure (.record .inverse [.matrix m] (.matrix answer)
        (.noted (.matrix ⟨m.rows, m.cols + m.rows, g, display, m.rows_pos, wide⟩)
            "augment with the identity matrix" ::
          shown g s.ops display m.rows_pos wide))
  else .fail (notSquare "inverse" m)

/-- The product of the pivots, with the sign of the row exchanges. -/
def signedProduct (swaps : Nat) (pivots : List Rat) : Rat :=
  let product := pivots.foldl (· * ·) 1
  if swaps % 2 = 1 then -product else product

def productNote (display : DisplayMode) (swaps : Nat) (pivots : List Rat) : String :=
  "det = (-1)^" ++ swaps.repr ++ " * " ++
    " * ".intercalate (pivots.map (Written.operand display))

/-- The determinant of a matrix: the signed product of the pivots, or zero if a column has none. -/
def determinant (m : RatMatrix) : Traced MethodFault Solution :=
  if m.isSquare then do
    let display := displayOf m
    let s ← reduced (List.finRange m.cols) m.grid
    let pivots := s.pivots.map Prod.snd
    let (value, note) :=
      if pivots.length < m.rows then
        ((0 : Rat), "a column has no pivot, so the determinant is 0")
      else (signedProduct s.swaps pivots, productNote display s.swaps pivots)
    pure (.record .determinant [.matrix m] (.scalar ⟨value, display⟩)
      (shown m.grid s.ops display m.rows_pos m.cols_pos ++
        [.noted (.scalar ⟨value, .custom note⟩) note]))
  else .fail (notSquare "determinant" m)

end WorkedAlgebra.Elimination
