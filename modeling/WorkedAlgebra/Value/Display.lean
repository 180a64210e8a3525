import WorkedAlgebra.Number.Decimal

/-!
# Display modes

How a value is to be shown. The mode is carried beside a value and takes no part in arithmetic.
-/

namespace WorkedAlgebra

/-- How a value is to be shown. -/
inductive DisplayMode
  /-- Exactly, as `n` or `n/d`. -/
  | fraction
  | decimal
  /-- By a fixed text in place of its numbers. -/
  | custom (text : String)
deriving DecidableEq, Repr

namespace DisplayMode

/-- The mode of an answer: decimal if any input is decimal, else fraction. -/
def resolve (modes : List DisplayMode) : DisplayMode :=
  if decimal ∈ modes then decimal else fraction

/-- The text of a single number, to which no fixed text belongs. -/
def format : DisplayMode → Rat → String
  | decimal, q => decimalText q
  | fraction, q | custom _, q => Numeral.fractionText q

/-- The mode that number texts ask for: decimal if one of them has a point. -/
def ofTexts (texts : List String) : DisplayMode :=
  if texts.any fun t => Numeral.hasPoint t.toList then decimal else fraction

end DisplayMode
end WorkedAlgebra
