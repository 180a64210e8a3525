import WorkedAlgebra.Method.Elimination
import WorkedAlgebra.Method.MatrixArithmetic
import WorkedAlgebra.Method.ScalarArithmetic
import WorkedAlgebra.Report

/-!
# Methods

A method is a way of working an operator, with the kinds of operands that it takes.
-/

namespace WorkedAlgebra

/-- Why an operation of an expression cannot be worked. -/
inductive EvalFault
  | invalidOperands (op : Operator) (expected found : String)
  | unsupported (op : Operator)
  | undefined (op : Operator) (fault : MethodFault)
deriving DecidableEq, Repr

def EvalFault.report : EvalFault → Report
  | invalidOperands op expected found => .invalidOperands op expected found
  | unsupported op => .unsupported op
  | undefined op fault => .operationFailure op fault.message

/-- A way of working an operator. -/
inductive Method
  | scalars (solve : Scalar → Scalar → Except MethodFault Solution)
  | matrices (solve : RatMatrix → RatMatrix → Except MethodFault Solution)
  /-- On a scalar and a matrix in either order. -/
  | scaling (solve : MatrixArithmetic.Side → Scalar → RatMatrix → Except MethodFault Solution)
  | matrix (solve : RatMatrix → Traced MethodFault Solution)

/-- The method by which an operator is worked. -/
def Operator.method? : Operator → Option Method
  | scalarPlus => some (.scalars ScalarArithmetic.plus)
  | scalarMinus => some (.scalars ScalarArithmetic.minus)
  | scalarMultiply => some (.scalars ScalarArithmetic.multiply)
  | scalarDivide => some (.scalars ScalarArithmetic.divide)
  | scalarMatrixMultiply => some (.scaling MatrixArithmetic.scale)
  | matrixPlus => some (.matrices MatrixArithmetic.plus)
  | matrixMinus => some (.matrices MatrixArithmetic.minus)
  | matrixMultiply => some (.matrices MatrixArithmetic.multiply)
  | determinant => some (.matrix Elimination.determinant)
  | rowReduce => some (.matrix Elimination.rowReduce)
  | rank => some (.matrix Elimination.rank)
  | transpose => some (.matrix fun m => .ofExcept (MatrixArithmetic.transpose m))
  | inverse => some (.matrix Elimination.inverse)
  | columnSpace => some (.matrix Elimination.columnSpace)
  | scalarPower | matrixPower | nullSpace => none

namespace Method

/-- The operands that a method takes, in words. -/
def expects : Method → String
  | scalars _ => "two scalars"
  | matrices _ => "two matrices"
  | scaling _ => "one scalar and one matrix"
  | matrix _ => "a matrix"

/-- The kinds of operands in words, such as `a scalar and a matrix`. -/
def describe : Option Value → Value → String
  | some first, second => "a " ++ first.kind.name ++ " and a " ++ second.kind.name
  | none, second => "a " ++ second.kind.name

/-- The solution of a method on operands, if it takes operands of their kinds. -/
def solve? : Method → Option Value → Value → Option (Traced MethodFault Solution)
  | scalars f, some (.scalar a), .scalar b => some (.ofExcept (f a b))
  | matrices f, some (.matrix a), .matrix b => some (.ofExcept (f a b))
  | scaling f, some (.scalar s), .matrix m => some (.ofExcept (f .left s m))
  | scaling f, some (.matrix m), .scalar s => some (.ofExcept (f .right s m))
  | matrix f, none, .matrix m => some (f m)
  | _, _, _ => none

/-- A method applied to operands; `op` is the operator that a fault names. -/
def apply (method : Method) (op : Operator) (first : Option Value) (second : Value) :
    Traced EvalFault Solution :=
  match method.solve? first second with
  | some solution => solution.mapFault (.undefined op)
  | none => .fail (.invalidOperands op method.expects (describe first second))

end Method
end WorkedAlgebra
