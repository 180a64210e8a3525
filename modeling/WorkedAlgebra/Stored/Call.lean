import WorkedAlgebra.Stored.Arithmetic
import WorkedAlgebra.Stored.Elimination

/-!
# Calls

The operations in storage with their operands.
-/

namespace WorkedAlgebra.Stored

/-- An operation in storage with its operands. -/
inductive Call
  | scalarPlus (a b : Scalar)
  | scalarMinus (a b : Scalar)
  | scalarMultiply (a b : Scalar)
  | scalarDivide (a b : Scalar)
  | plus (a b : StoredMatrix)
  | minus (a b : StoredMatrix)
  | multiply (a b : StoredMatrix)
  | scale (side : MatrixArithmetic.Side) (s : Scalar) (a : StoredMatrix)
  | transpose (a : StoredMatrix)
  | rowReduce (a : StoredMatrix)
  | rank (a : StoredMatrix)
  | columnSpace (a : StoredMatrix)
  | inverse (a : StoredMatrix)
  | determinant (a : StoredMatrix)
deriving DecidableEq, Repr

namespace Call

def run : Call → Except StoredFault StoredSolution
  | scalarPlus a b => Stored.scalarPlus a b
  | scalarMinus a b => Stored.scalarMinus a b
  | scalarMultiply a b => Stored.scalarMultiply a b
  | scalarDivide a b => Stored.scalarDivide a b
  | plus a b => Stored.plus a b
  | minus a b => Stored.minus a b
  | multiply a b => Stored.multiply a b
  | scale side s a => Stored.scale side s a
  | transpose a => Stored.transpose a
  | rowReduce a => Stored.rowReduce a
  | rank a => Stored.rank a
  | columnSpace a => Stored.columnSpace a
  | inverse a => Stored.inverse a
  | determinant a => Stored.determinant a

/-- The matrices among the operands. -/
def matrices : Call → List StoredMatrix
  | scalarPlus .. | scalarMinus .. | scalarMultiply .. | scalarDivide .. => []
  | plus a b | minus a b | multiply a b => [a, b]
  | scale _ _ a => [a]
  | transpose a | rowReduce a | rank a | columnSpace a | inverse a | determinant a => [a]

end Call
end WorkedAlgebra.Stored
