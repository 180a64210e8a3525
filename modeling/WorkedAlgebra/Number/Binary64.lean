/-!
# Binary64 magnitudes

A finite binary64 magnitude is a natural number times a power of two; the rounding of a rational
to the nearest of them is done in exact integer arithmetic.
-/

namespace WorkedAlgebra

/-- The magnitude `significand * 2 ^ exponent`. -/
structure Binary64 where
  significand : Nat
  exponent : Int
deriving DecidableEq, Repr

namespace Binary64

def precision : Nat := 53

/-- The exponent of the subnormal numbers. -/
def minExponent : Int := -1074

/-- The exponent of the largest finite numbers. -/
def maxExponent : Int := 971

/-- The integer nearest to `num / den`; of two equally near, the even one. -/
def roundQuotient (num den : Nat) : Nat :=
  let q := num / den
  let r := num % den
  if 2 * r < den ∨ (2 * r = den ∧ q % 2 = 0) then q else q + 1

/-- The largest `k` with `2 ^ k ≤ num / den`. -/
def floorLog2 (num den : Nat) : Int :=
  let k : Int := (num.log2 : Int) - (den.log2 : Int)
  if den <<< k.toNat ≤ num <<< (-k).toNat then k else k - 1

/-- The exponent at which `num / den` has a full significand, or that of the subnormals. -/
def exponentOf (num den : Nat) : Int :=
  max (floorLog2 num den - (precision - 1 : Nat)) minExponent

/-- The magnitude with a significand of at most `2 ^ 53`, whose carry moves to the exponent. -/
def normalize (significand : Nat) (exponent : Int) : Binary64 :=
  if significand = 1 <<< precision then ⟨1 <<< (precision - 1), exponent + 1⟩
  else ⟨significand, exponent⟩

/-- The binary64 magnitude nearest to `num / den`, ties to even, or none if it is infinite. -/
def nearest (num den : Nat) : Option Binary64 :=
  let e := exponentOf num den
  let b := normalize (roundQuotient (num <<< (-e).toNat) (den <<< e.toNat)) e
  if b.exponent ≤ maxExponent then some b else none

end Binary64
end WorkedAlgebra
