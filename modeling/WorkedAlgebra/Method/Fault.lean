/-!
# Faults of operations

Why an operation is undefined on operands of the right kinds.
-/

namespace WorkedAlgebra

/-- Why an operation is undefined on its operands. -/
inductive MethodFault
  | dimensionMismatch (verb : String) (leftRows leftCols rightRows rightCols : Nat)
  | divisionByZero
  | notSquare (operation : String) (rows cols : Nat)
  | singular
deriving DecidableEq, Repr

namespace MethodFault

/-- The size of a matrix in words, such as `2x3`. -/
def sizeText (rows cols : Nat) : String :=
  rows.repr ++ "x" ++ cols.repr

def message : MethodFault → String
  | dimensionMismatch verb leftRows leftCols rightRows rightCols =>
    "cannot " ++ verb ++ " a " ++ sizeText leftRows leftCols ++ " matrix and a " ++
      sizeText rightRows rightCols ++ " matrix"
  | divisionByZero => "division by zero"
  | notSquare operation rows cols =>
    operation ++ " requires a square matrix, got " ++ sizeText rows cols
  | singular => "matrix is singular and has no inverse"

end MethodFault
end WorkedAlgebra
