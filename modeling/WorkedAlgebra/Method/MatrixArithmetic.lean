import WorkedAlgebra.Method.Fault
import WorkedAlgebra.Method.Written
import WorkedAlgebra.Solution

/-!
# Arithmetic on matrices

Sums, differences and products of matrices, products with a scalar, and transposition. The first
step of a sum or a product writes every entry out.
-/

namespace WorkedAlgebra.MatrixArithmetic

/-- The side of a product on which the scalar stands. -/
inductive Side
  | left
  | right
deriving DecidableEq, Repr

def mismatch (verb : String) (a b : RatMatrix) : MethodFault :=
  .dimensionMismatch verb a.rows a.cols b.rows b.cols

def gridText (rows cols : Nat) (cell : Fin rows → Fin cols → String) : String :=
  bracketed ((List.finRange rows).map fun i => (List.finRange cols).map fun j => cell i j)

/-- An operation on the entries of two matrices of the same shape. -/
def entrywise (op : Operator) (verb : String) (f : Rat → Rat → Rat) (a b : RatMatrix) :
    Except MethodFault Solution :=
  if h : a.rows = b.rows ∧ a.cols = b.cols then
    let display := DisplayMode.resolve [a.display, b.display]
    let other (i : Fin a.rows) (j : Fin a.cols) : Rat := b.grid.get (i.cast h.1) (j.cast h.2)
    let answer : RatMatrix :=
      { a with grid := .ofFn fun i j => f (a.grid.get i j) (other i j), display }
    let written := gridText a.rows a.cols fun i j =>
      Written.binary display op.symbol (a.grid.get i j) (other i j)
    .ok (.record op [.matrix a, .matrix b] (.matrix answer)
      [.plain (.matrix (answer.withDisplay (.custom written)))])
  else .error (mismatch verb a b)

def plus (a b : RatMatrix) : Except MethodFault Solution :=
  entrywise .matrixPlus "add" (· + ·) a b

def minus (a b : RatMatrix) : Except MethodFault Solution :=
  entrywise .matrixMinus "subtract" (· - ·) a b

def multiply (a b : RatMatrix) : Except MethodFault Solution :=
  if h : a.cols = b.rows then
    let display := DisplayMode.resolve [a.display, b.display]
    let right : Grid a.cols b.cols := .ofFn fun l j => b.grid.get (l.cast h) j
    let answer : RatMatrix := ⟨a.rows, b.cols, a.grid.mul right, display, a.rows_pos, b.cols_pos⟩
    let written := gridText a.rows b.cols fun i j =>
      " + ".intercalate ((List.finRange a.cols).map fun l =>
        Written.product display (a.grid.get i l) (right.get l j))
    .ok (.record .matrixMultiply [.matrix a, .matrix b] (.matrix answer)
      [.noted (.matrix (answer.withDisplay (.custom written)))
        "each entry is a row of the left matrix times a column of the right matrix"])
  else .error (mismatch "multiply" a b)

/-- The product of a scalar and a matrix, with the inputs in the order in which they were
written. -/
def scale (side : Side) (s : Scalar) (m : RatMatrix) : Except MethodFault Solution :=
  let display := DisplayMode.resolve [s.display, m.display]
  let answer : RatMatrix := { m with grid := .ofFn fun i j => s.value * m.grid.get i j, display }
  let written := gridText m.rows m.cols fun i j =>
    Written.product display s.value (m.grid.get i j)
  let inputs := match side with
    | .left => [.scalar s, .matrix m]
    | .right => [.matrix m, .scalar s]
  .ok (.record .scalarMatrixMultiply inputs (.matrix answer)
    [.plain (.matrix (answer.withDisplay (.custom written)))])

def transpose (m : RatMatrix) : Except MethodFault Solution :=
  let display := DisplayMode.resolve [m.display]
  let answer : RatMatrix := ⟨m.cols, m.rows, m.grid.transpose, display, m.cols_pos, m.rows_pos⟩
  .ok (.record .transpose [.matrix m] (.matrix answer)
    [.noted (.matrix (m.withDisplay display))
      ("row i of the input becomes column i of the " ++ MethodFault.sizeText m.cols m.rows ++
        " result")])

end WorkedAlgebra.MatrixArithmetic
