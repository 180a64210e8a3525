import WorkedAlgebra.Method.Fault
import WorkedAlgebra.Method.Written
import WorkedAlgebra.Solution

/-!
# Arithmetic on scalars

The four operations on scalars. The only step of a solution, before its answer, writes the two
operands out.
-/

namespace WorkedAlgebra.ScalarArithmetic

/-- The solution of an operation on two scalars with a given result. -/
def solution (op : Operator) (a b : Scalar) (result : Rat) : Solution :=
  let display := DisplayMode.resolve [a.display, b.display]
  let written := Written.binary display op.symbol a.value b.value
  .record op [.scalar a, .scalar b] (.scalar ⟨result, display⟩)
    [.plain (.scalar ⟨result, .custom written⟩)]

def plus (a b : Scalar) : Except MethodFault Solution :=
  .ok (solution .scalarPlus a b (a.value + b.value))

def minus (a b : Scalar) : Except MethodFault Solution :=
  .ok (solution .scalarMinus a b (a.value - b.value))

def multiply (a b : Scalar) : Except MethodFault Solution :=
  .ok (solution .scalarMultiply a b (a.value * b.value))

/-- The quotient of two scalars, which zero does not divide. -/
def divide (a b : Scalar) : Except MethodFault Solution :=
  if b.value = 0 then .error .divisionByZero
  else .ok (solution .scalarDivide a b (a.value / b.value))

end WorkedAlgebra.ScalarArithmetic
