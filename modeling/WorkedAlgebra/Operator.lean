/-!
# Operators

The operators of expressions and the table that describes them.
-/

namespace WorkedAlgebra

/-- Where the operands of an operator stand. -/
inductive Arity
  /-- One operand, to the right of the operator. -/
  | unary
  /-- An operand on each side. -/
  | binary
deriving DecidableEq, Repr

inductive Operator
  | scalarPlus
  | scalarMinus
  | scalarMultiply
  | scalarDivide
  | scalarPower
  | scalarMatrixMultiply
  | matrixPlus
  | matrixMinus
  | matrixMultiply
  | matrixPower
  | determinant
  | rowReduce
  | rank
  | nullSpace
  | transpose
  | inverse
  | columnSpace
deriving DecidableEq, Repr

structure OperatorInfo where
  key : String
  name : String
  symbol : String
  rank : Nat
  arity : Arity
deriving DecidableEq, Repr

namespace Operator

/-- The operators in the order of the catalog. -/
def all : List Operator :=
  [scalarPlus, scalarMinus, scalarMultiply, scalarDivide, scalarPower, scalarMatrixMultiply,
    matrixPlus, matrixMinus, matrixMultiply, matrixPower, determinant, rowReduce, rank, nullSpace,
    transpose, inverse, columnSpace]

/-- The row of the table for an operator. **Rank is binding strength**: an operator of higher rank
takes its operands first. -/
def info : Operator → OperatorInfo
  | scalarPlus => ⟨"scalar_plus", "scalar plus", "+", 1, .binary⟩
  | scalarMinus => ⟨"scalar_minus", "scalar minus", "-", 1, .binary⟩
  | matrixPlus => ⟨"matrix_plus", "matrix plus", "+", 1, .binary⟩
  | matrixMinus => ⟨"matrix_minus", "matrix minus", "-", 1, .binary⟩
  | scalarMultiply => ⟨"scalar_multiply", "scalar multiply", "*", 2, .binary⟩
  | scalarDivide => ⟨"scalar_divide", "scalar divide", "/", 2, .binary⟩
  | scalarMatrixMultiply => ⟨"scalar_matrix_multiply", "scalar-matrix multiply", "*", 2, .binary⟩
  | matrixMultiply => ⟨"matrix_multiply", "matrix multiply", "*", 2, .binary⟩
  | scalarPower => ⟨"scalar_power", "scalar power", "^", 3, .binary⟩
  | matrixPower => ⟨"matrix_power", "matrix power", "^", 3, .binary⟩
  | determinant => ⟨"determinant", "determinant", "det", 4, .unary⟩
  | rowReduce => ⟨"row_reduce", "row reduce", "rref", 4, .unary⟩
  | rank => ⟨"rank", "rank", "rank", 4, .unary⟩
  | nullSpace => ⟨"null_space", "null space", "null", 4, .unary⟩
  | transpose => ⟨"transpose", "transpose", "transpose", 4, .unary⟩
  | inverse => ⟨"inverse", "inverse", "inv", 4, .unary⟩
  | columnSpace => ⟨"column_space", "column space", "col", 4, .unary⟩

def key (op : Operator) : String := op.info.key

def name (op : Operator) : String := op.info.name

def symbol (op : Operator) : String := op.info.symbol

def strength (op : Operator) : Nat := op.info.rank

def arity (op : Operator) : Arity := op.info.arity

def isUnary (op : Operator) : Bool := op.arity == .unary

def isBinary (op : Operator) : Bool := op.arity == .binary

def ofKey? (key : String) : Option Operator :=
  all.find? fun op => op.key == key

def place (op : Operator) : Nat := all.idxOf op

def sort (ops : List Operator) : List Operator :=
  ops.mergeSort fun a b => a.place ≤ b.place

theorem mem_all (op : Operator) : op ∈ all := by
  cases op <;> decide

theorem ofKey?_key (op : Operator) : ofKey? op.key = some op := by
  cases op <;> rfl

end Operator
end WorkedAlgebra
