import WorkedAlgebra.Value.Display

/-!
# Written forms

How numbers are written inside the steps of a solution.
-/

namespace WorkedAlgebra.Written

/-- A number as an operand; a negative one stands in brackets, as in `4 - (-2)`. -/
def operand (display : DisplayMode) (q : Rat) : String :=
  if q < 0 then "(" ++ display.format q ++ ")" else display.format q

def binary (display : DisplayMode) (symbol : String) (a b : Rat) : String :=
  operand display a ++ " " ++ symbol ++ " " ++ operand display b

def product (display : DisplayMode) (a b : Rat) : String :=
  operand display a ++ "*" ++ operand display b

/-- A number as a coefficient: nothing for one, a sign for minus one, a fraction in brackets. -/
def coefficient (q : Rat) : String :=
  if q = 1 then ""
  else if q = -1 then "-"
  else if q.den = 1 then Numeral.integerText q.num
  else "(" ++ Numeral.fractionText q ++ ")"

end WorkedAlgebra.Written
