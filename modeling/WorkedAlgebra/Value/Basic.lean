import WorkedAlgebra.Value.RatMatrix

/-!
# Values

A value is a scalar or a matrix.
-/

namespace WorkedAlgebra

inductive ValueKind
  | scalar
  | matrix
deriving DecidableEq, Repr

def ValueKind.name : ValueKind → String
  | scalar => "scalar"
  | matrix => "matrix"

/-- A scalar or a matrix. -/
inductive Value
  | scalar (s : Scalar)
  | matrix (m : RatMatrix)
deriving DecidableEq, Repr

namespace Value

def kind : Value → ValueKind
  | scalar _ => .scalar
  | matrix _ => .matrix

def scalar? : Value → Option Scalar
  | scalar s => some s
  | matrix _ => none

def matrix? : Value → Option RatMatrix
  | scalar _ => none
  | matrix m => some m

def display : Value → DisplayMode
  | scalar s => s.display
  | matrix m => m.display

def text : Value → String
  | scalar s => s.text
  | matrix m => m.text

end Value
end WorkedAlgebra
