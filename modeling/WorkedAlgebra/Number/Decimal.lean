import WorkedAlgebra.Number.Binary64
import WorkedAlgebra.Number.Numeral

/-!
# Decimal texts

The decimal text of a rational: the nearest binary64 number, written with the fewest digits that
read back as it.
-/

namespace WorkedAlgebra

/-- The number `coefficient * 10 ^ exponent`. -/
structure Decimal where
  coefficient : Nat
  exponent : Int
deriving DecidableEq, Repr

namespace Decimal

/-- The digits of a decimal in positional notation, with a zero before a point that comes first. -/
def digits (d : Decimal) : List Char :=
  let ds := Nat.toDigits 10 d.coefficient
  let places := (-d.exponent).toNat
  if places = 0 then ds ++ List.replicate d.exponent.toNat '0'
  else if places < ds.length then
    ds.take (ds.length - places) ++ '.' :: ds.drop (ds.length - places)
  else '0' :: '.' :: (List.replicate (places - ds.length) '0' ++ ds)

end Decimal

namespace Binary64

/-- The lower end of the numbers that round to `b`, in quarters of its last place. Below a power of
two the spacing is half as wide. -/
def lowQuarters (b : Binary64) : Nat :=
  if b.significand = 1 <<< (precision - 1) ∧ minExponent < b.exponent then 4 * b.significand - 1
  else 4 * b.significand - 2

/-- The upper end of the numbers that round to `b`, in quarters of its last place. -/
def highQuarters (b : Binary64) : Nat :=
  4 * b.significand + 2

/-- A number of quarters of the last place of `b`, on the common scale with `10 ^ k`. -/
def scaleQuarters (b : Binary64) (k : Int) (quarters : Nat) : Nat :=
  (quarters <<< b.exponent.toNat) * Nat.pow 10 (-k).toNat

/-- The grid step `10 ^ k` on the common scale with quarters of the last place of `b`. -/
def scaledStep (b : Binary64) (k : Int) : Nat :=
  Nat.pow 10 k.toNat * (4 <<< (-b.exponent).toNat)

/-- Whether a decimal rounds to `b`, the ends belonging to `b` exactly if its significand is
even. -/
def reads (b : Binary64) (d : Decimal) : Bool :=
  let x := d.coefficient * b.scaledStep d.exponent
  let low := b.scaleQuarters d.exponent b.lowQuarters
  let high := b.scaleQuarters d.exponent b.highQuarters
  if b.significand % 2 = 0 then low ≤ x && x ≤ high else low < x && x < high

/-- The two neighbours of `b` on the grid of step `10 ^ k`, the nearer first, then the upper one. -/
def neighbours (b : Binary64) (k : Int) : List Decimal :=
  let x := b.scaleQuarters k (4 * b.significand)
  let c := x / b.scaledStep k
  if 2 * (x % b.scaledStep k) < b.scaledStep k then [⟨c, k⟩, ⟨c + 1, k⟩]
  else [⟨c + 1, k⟩, ⟨c, k⟩]

/-- The neighbour of `b` on the grid of step `10 ^ k` that reads as `b`. -/
def onGrid? (b : Binary64) (k : Int) : Option Decimal :=
  (b.neighbours k).find? b.reads

def exact (b : Binary64) : Decimal :=
  if 0 ≤ b.exponent then ⟨b.significand <<< b.exponent.toNat, 0⟩
  else ⟨b.significand * Nat.pow 5 (-b.exponent).toNat, b.exponent⟩

/-- A grid exponent at which one step exceeds `b`; `30103 / 100000` is just above `log10 2`. -/
def topExponent (b : Binary64) : Int :=
  (b.exponent + b.significand.log2 + 1) * 30103 / 100000 + 1

/-- The decimal on the coarsest grid that reads as `b`. Seventeen digits always do, so that twenty
grids are enough. -/
def shortest (b : Binary64) : Decimal :=
  ((List.range 20).findSome? fun (i : Nat) => b.onGrid? (b.topExponent - i)).getD b.exact

/-- The positional text of a magnitude. -/
def digits (b : Binary64) : List Char :=
  if b.significand = 0 then ['0'] else b.shortest.digits

end Binary64

/-- The decimal text of a rational. A negative number keeps its sign even when it rounds to zero; a
number beyond the binary64 range is written as a fraction. -/
def decimalText (q : Rat) : String :=
  match Binary64.nearest q.num.natAbs q.den with
  | none => Numeral.fractionText q
  | some b => String.ofList (if q < 0 then '-' :: b.digits else b.digits)

end WorkedAlgebra
