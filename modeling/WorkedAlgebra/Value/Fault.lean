/-!
# Faults of values

Why a scalar or a matrix cannot be made from what was given.
-/

namespace WorkedAlgebra

/-- Why a value cannot be made. -/
inductive ValueFault
  | emptyMatrix
  | raggedRows (row expected found : Nat)
  | invalidNumber (text : String)
deriving DecidableEq, Repr

def ValueFault.message : ValueFault → String
  | emptyMatrix => "matrix must have at least one row and one column"
  | raggedRows row expected found =>
    "matrix row " ++ row.repr ++ " has " ++ found.repr ++ " entries, expected " ++ expected.repr
  | invalidNumber text => "invalid number: '" ++ text ++ "'"

end WorkedAlgebra
