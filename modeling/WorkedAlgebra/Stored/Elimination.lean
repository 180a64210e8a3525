import WorkedAlgebra.Method.Elimination
import WorkedAlgebra.Stored.Basic

/-!
# Elimination in storage

Gauss–Jordan elimination as it is carried out on stored rows, which are overwritten in place. After
every row operation a snapshot of the rows is kept with a note; note and change are made apart from
each other.
-/

namespace WorkedAlgebra.Stored

/-- The state of an elimination on stored rows. `top` is the next row without a pivot. -/
structure Sweep where
  rows : List (List Rat)
  top : Nat
  pivotColumns : List Nat
  /-- The pivots before their rows were scaled. -/
  pivots : List Rat
  swaps : Nat
  steps : List StoredStep
deriving DecidableEq, Repr

/-- A matrix of given rows as a step with a note. -/
def snapshot (display : DisplayMode) (rows : List (List Rat)) (note : String) :
    Except StoredFault StoredStep := do
  let a ← StoredMatrix.ofRows rows display
  pure ⟨.matrix a, some note⟩

def rowName (i : Nat) : String :=
  "R" ++ (i + 1).repr

/-- The note on a multiple of row `top` subtracted from row `i`. -/
def clearNote (i top : Nat) (factor : Rat) : String :=
  let sign := if factor < 0 then "+" else "-"
  let magnitude := if factor < 0 then -factor else factor
  rowName i ++ " = " ++ rowName i ++ " " ++ sign ++ " " ++ Written.coefficient magnitude ++
    rowName top

/-- A row with a multiple of another subtracted, as far as the other one goes. -/
def lessMultiple (factor : Rat) : List Rat → List Rat → List Rat
  | x :: xs, y :: ys => (x - factor * y) :: lessMultiple factor xs ys
  | xs, _ => xs

def pivotRow? (rows : List (List Rat)) (top col : Nat) : Except StoredFault (Option Nat) :=
  (List.range' top (rows.length - top)).findM? fun i => do
    let row ← fetch rows i
    let q ← fetch row col
    pure (q != 0)

namespace Sweep

def start (rows : List (List Rat)) : Sweep :=
  ⟨rows, 0, [], [], 0, []⟩

/-- The rows overwritten, with a snapshot of them. -/
def overwrite (display : DisplayMode) (s : Sweep) (rows : List (List Rat)) (note : String) :
    Except StoredFault Sweep := do
  let step ← snapshot display rows note
  pure { s with rows, steps := s.steps ++ [step] }

/-- Row `found` exchanged with row `top`, unless it is that row. -/
def raise (display : DisplayMode) (s : Sweep) (found : Nat) : Except StoredFault Sweep :=
  if found = s.top then pure s
  else do
    let upper ← fetch s.rows s.top
    let lower ← fetch s.rows found
    let s ← s.overwrite display ((s.rows.set s.top lower).set found upper)
      (rowName s.top ++ " <-> " ++ rowName found)
    pure { s with swaps := s.swaps + 1 }

/-- Row `top` divided by its pivot, unless that is one. -/
def normalize (display : DisplayMode) (s : Sweep) (pivot : Rat) : Except StoredFault Sweep :=
  if pivot = 1 then pure s
  else do
    let factor ← reciprocal pivot
    let row ← fetch s.rows s.top
    s.overwrite display (s.rows.set s.top (row.map (· * factor)))
      (rowName s.top ++ " = " ++ Written.coefficient factor ++ rowName s.top)

/-- Row `i` cleared in a column by a multiple of row `top`, unless it is that row or zero there. -/
def clearRow (display : DisplayMode) (col : Nat) (pivotValues : List Rat) (s : Sweep) (i : Nat) :
    Except StoredFault Sweep :=
  if i = s.top then pure s
  else do
    let row ← fetch s.rows i
    let factor ← fetch row col
    if factor = 0 then pure s
    else
      s.overwrite display (s.rows.set i (lessMultiple factor row pivotValues))
        (clearNote i s.top factor)

def column (display : DisplayMode) (s : Sweep) (col : Nat) : Except StoredFault Sweep :=
  if s.top = s.rows.length then pure s
  else do
    match ← pivotRow? s.rows s.top col with
    | none => pure s
    | some found =>
      let s ← s.raise display found
      let row ← fetch s.rows s.top
      let pivot ← fetch row col
      let s ← s.normalize display pivot
      let pivotValues ← fetch s.rows s.top
      let s ← (List.range s.rows.length).foldlM (clearRow display col pivotValues) s
      pure { s with
        top := s.top + 1
        pivotColumns := s.pivotColumns ++ [col]
        pivots := s.pivots ++ [pivot] }

end Sweep

/-- The elimination of rows with pivots in the first `limit` columns. -/
def reduce (display : DisplayMode) (limit : Nat) (rows : List (List Rat)) :
    Except StoredFault Sweep :=
  (List.range limit).foldlM (Sweep.column display) (.start rows)

/-! ## Operations by elimination -/

def displayOf (a : StoredMatrix) : DisplayMode :=
  .resolve [a.display]

def notSquare (operation : String) (a : StoredMatrix) : StoredFault :=
  .undefined (.notSquare operation a.rows a.cols)

def rowReduce (a : StoredMatrix) : Except StoredFault StoredSolution := do
  let display := displayOf a
  let s ← reduce display a.cols (← a.toRows)
  let answer ← StoredMatrix.ofRows s.rows display
  pure (.record .rowReduce [.matrix a] (.matrix answer) s.steps)

def rank (a : StoredMatrix) : Except StoredFault StoredSolution := do
  let display := displayOf a
  let s ← reduce display a.cols (← a.toRows)
  let n := s.pivotColumns.length
  let last ← snapshot display s.rows (Elimination.pivotCount n)
  pure (.record .rank [.matrix a] (.scalar ⟨(n : Rat), display⟩) (s.steps ++ [last]))

def basisNote : List Nat → String
  | [] => "no pivot columns; the column space is the zero vector"
  | cols => "pivot columns: " ++ ", ".intercalate (cols.map fun col => (col + 1).repr)

def columnsAt (a : StoredMatrix) (display : DisplayMode) (basis : List Nat) :
    Except StoredFault StoredMatrix :=
  if basis = [] then StoredMatrix.make a.rows 1 (List.replicate a.rows 0) display
  else do
    let picked ← (List.range a.rows).mapM fun i => basis.mapM fun j => a.get i j
    StoredMatrix.make a.rows basis.length picked.flatten display

def columnSpace (a : StoredMatrix) : Except StoredFault StoredSolution := do
  let display := displayOf a
  let s ← reduce display a.cols (← a.toRows)
  let answer ← columnsAt a display s.pivotColumns
  let last ← snapshot display s.rows (basisNote s.pivotColumns)
  pure (.record .columnSpace [.matrix a] (.matrix answer) (s.steps ++ [last]))

def augmented (a : StoredMatrix) : Except StoredFault (List (List Rat)) :=
  (List.range a.rows).mapM fun i => do
    let row ← a.row i
    pure (row ++ (List.range a.rows).map fun j => if i = j then 1 else 0)

/-- A row without its first `n` entries, all of which have to lie inside. -/
def dropEntries (n : Nat) (row : List Rat) : Except StoredFault (List Rat) :=
  if n ≤ row.length then .ok (row.drop n) else .error .outside

def inverse (a : StoredMatrix) : Except StoredFault StoredSolution :=
  if a.isSquare then do
    let display := displayOf a
    let rows ← augmented a
    let first ← snapshot display rows "augment with the identity matrix"
    let s ← reduce display a.rows rows
    if s.pivotColumns.length < a.rows then .error (.undefined .singular)
    else
      let halves ← s.rows.mapM (dropEntries a.rows)
      let answer ← StoredMatrix.make a.rows a.rows halves.flatten display
      pure (.record .inverse [.matrix a] (.matrix answer) (first :: s.steps))
  else .error (notSquare "inverse" a)

def determinant (a : StoredMatrix) : Except StoredFault StoredSolution :=
  if a.isSquare then do
    let display := displayOf a
    let s ← reduce display a.rows (← a.toRows)
    let (value, note) :=
      if s.pivotColumns.length < a.rows then
        ((0 : Rat), "a column has no pivot, so the determinant is 0")
      else (Elimination.signedProduct s.swaps s.pivots,
        Elimination.productNote display s.swaps s.pivots)
    pure (.record .determinant [.matrix a] (.scalar ⟨value, display⟩)
      (s.steps ++ [⟨.scalar ⟨value, .custom note⟩, some note⟩]))
  else .error (notSquare "determinant" a)

end WorkedAlgebra.Stored
