import WorkedAlgebra.Value.Display
import WorkedAlgebra.Value.Fault

/-!
# Scalars

A scalar is an exact rational number together with the way it is shown.
-/

namespace WorkedAlgebra

/-- A rational number and the way it is shown. -/
structure Scalar where
  value : Rat
  display : DisplayMode
deriving DecidableEq, Repr

def parseNumber (text : String) : Except ValueFault Rat :=
  match Numeral.number? text.toList with
  | some q => .ok q
  | none => .error (.invalidNumber text)

namespace Scalar

def ofInt (n : Int) : Scalar :=
  ⟨n, .fraction⟩

/-- A quotient of integers, shown as a fraction. -/
def ofQuotient? (n d : Int) : Option Scalar :=
  if d = 0 then none else some ⟨Rat.divInt n d, .fraction⟩

/-- A number text in a given mode, or in the one that the text asks for. -/
def ofText (text : String) (display : Option DisplayMode) : Except ValueFault Scalar :=
  (parseNumber text).map fun q => ⟨q, display.getD (.ofTexts [text])⟩

/-- A number text; a decimal point asks for a decimal display. -/
def parse (text : String) : Except ValueFault Scalar :=
  ofText text none

def withDisplay (s : Scalar) (display : DisplayMode) : Scalar :=
  { s with display }

def text (s : Scalar) : String :=
  match s.display with
  | .custom t => t
  | mode => mode.format s.value

end Scalar
end WorkedAlgebra
