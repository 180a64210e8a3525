import WorkedAlgebra.Method.MatrixArithmetic
import WorkedAlgebra.Stored.Basic

/-!
# Arithmetic in storage

The operations on scalars and on matrices as they are carried out on stored entries: every entry is
read at its place, every answer is made from its list of entries, and every read and every matrix
is checked.
-/

namespace WorkedAlgebra.Stored

/-! ## Scalars -/

/-- An operation on two scalars, with their written form as its only step before the answer. -/
def combine (op : Operator) (f : Rat → Rat → Except StoredFault Rat) (a b : Scalar) :
    Except StoredFault StoredSolution := do
  let display := DisplayMode.resolve [a.display, b.display]
  let value ← f a.value b.value
  let written := Written.binary display op.symbol a.value b.value
  pure (.record op [.scalar a, .scalar b] (.scalar ⟨value, display⟩)
    [⟨.scalar ⟨value, .custom written⟩, none⟩])

def scalarPlus (a b : Scalar) : Except StoredFault StoredSolution :=
  combine .scalarPlus (fun x y => .ok (x + y)) a b

def scalarMinus (a b : Scalar) : Except StoredFault StoredSolution :=
  combine .scalarMinus (fun x y => .ok (x - y)) a b

def scalarMultiply (a b : Scalar) : Except StoredFault StoredSolution :=
  combine .scalarMultiply (fun x y => .ok (x * y)) a b

def scalarDivide (a b : Scalar) : Except StoredFault StoredSolution :=
  combine .scalarDivide
    (fun x y =>
      if y = 0 then .error (.undefined .divisionByZero) else do pure (x * (← reciprocal y)))
    a b

/-! ## Matrices -/

def mismatch (verb : String) (a b : StoredMatrix) : StoredFault :=
  .undefined (.dimensionMismatch verb a.rows a.cols b.rows b.cols)

/-- A grid of cells, each found by its row and its column. -/
def cells {α : Type} (rows cols : Nat) (cell : Nat → Nat → Except StoredFault α) :
    Except StoredFault (List (List α)) :=
  (List.range rows).mapM fun i => (List.range cols).mapM fun j => cell i j

def gridText (rows cols : Nat) (cell : Nat → Nat → Except StoredFault String) :
    Except StoredFault String := do
  pure (bracketed (← cells rows cols cell))

def entrywise (op : Operator) (verb : String) (f : Rat → Rat → Rat) (a b : StoredMatrix) :
    Except StoredFault StoredSolution :=
  if a.rows = b.rows ∧ a.cols = b.cols then do
    let display := DisplayMode.resolve [a.display, b.display]
    let answer ← StoredMatrix.make a.rows a.cols (List.zipWith f a.entries b.entries) display
    let written ← gridText a.rows a.cols fun i j => do
      let x ← a.get i j
      let y ← b.get i j
      pure (Written.binary display op.symbol x y)
    pure (.record op [.matrix a, .matrix b] (.matrix answer)
      [⟨.matrix (answer.withDisplay (.custom written)), none⟩])
  else .error (mismatch verb a b)

def plus (a b : StoredMatrix) : Except StoredFault StoredSolution :=
  entrywise .matrixPlus "add" (· + ·) a b

def minus (a b : StoredMatrix) : Except StoredFault StoredSolution :=
  entrywise .matrixMinus "subtract" (· - ·) a b

/-- A row of the first matrix dotted with a column of the second. -/
def dot (a b : StoredMatrix) (i j : Nat) : Except StoredFault Rat :=
  (List.range a.cols).foldlM (fun sum l => do
    let x ← a.get i l
    let y ← b.get l j
    pure (sum + x * y)) 0

def multiply (a b : StoredMatrix) : Except StoredFault StoredSolution :=
  if a.cols = b.rows then do
    let display := DisplayMode.resolve [a.display, b.display]
    let sums ← cells a.rows b.cols (dot a b)
    let answer ← StoredMatrix.make a.rows b.cols sums.flatten display
    let written ← gridText a.rows b.cols fun i j => do
      let products ← (List.range a.cols).mapM fun l => do
        let x ← a.get i l
        let y ← b.get l j
        pure (Written.product display x y)
      pure (" + ".intercalate products)
    pure (.record .matrixMultiply [.matrix a, .matrix b] (.matrix answer)
      [⟨.matrix (answer.withDisplay (.custom written)),
        some "each entry is a row of the left matrix times a column of the right matrix"⟩])
  else .error (mismatch "multiply" a b)

def scale (side : MatrixArithmetic.Side) (s : Scalar) (a : StoredMatrix) :
    Except StoredFault StoredSolution := do
  let display := DisplayMode.resolve [s.display, a.display]
  let answer ← StoredMatrix.make a.rows a.cols (a.entries.map (s.value * ·)) display
  let written ← gridText a.rows a.cols fun i j => do
    let x ← a.get i j
    pure (Written.product display s.value x)
  let inputs := match side with
    | .left => [.scalar s, .matrix a]
    | .right => [.matrix a, .scalar s]
  pure (.record .scalarMatrixMultiply inputs (.matrix answer)
    [⟨.matrix (answer.withDisplay (.custom written)), none⟩])

def transpose (a : StoredMatrix) : Except StoredFault StoredSolution := do
  let display := DisplayMode.resolve [a.display]
  let turned ← cells a.cols a.rows fun j i => a.get i j
  let answer ← StoredMatrix.make a.cols a.rows turned.flatten display
  pure (.record .transpose [.matrix a] (.matrix answer)
    [⟨.matrix (a.withDisplay display),
      some ("row i of the input becomes column i of the " ++
        MethodFault.sizeText a.cols a.rows ++ " result")⟩])

end WorkedAlgebra.Stored
