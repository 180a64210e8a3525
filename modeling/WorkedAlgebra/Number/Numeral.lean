import WorkedAlgebra.Text.Blank

/-!
# Number texts

Exact rational numbers are written as integers (`-3`), quotients of integers (`3/4`) or with a
decimal point (`1.25`).
-/

namespace WorkedAlgebra.Numeral

/-- The value of a run of digits and underscores that starts with a digit. -/
def natural? : List Char → Option Nat
  | [] => none
  | c :: cs =>
    if c.isDigit && cs.all (fun d => d.isDigit || d == '_') then
      some (Nat.ofDigitChars 10 ((c :: cs).filter (· != '_')) 0)
    else none

/-- The value of a natural numeral after at most one sign. -/
def integer? : List Char → Option Int
  | '-' :: cs => (natural? cs).map fun n => -(n : Int)
  | '+' :: cs => (natural? cs).map fun n => (n : Int)
  | cs => (natural? cs).map fun n => (n : Int)

/-- The parts of a text before and after the first occurrence of a character. -/
def splitAtFirst (c : Char) (cs : List Char) : Option (List Char × List Char) :=
  match cs.dropWhile (· != c) with
  | [] => none
  | _ :: after => some (cs.takeWhile (· != c), after)

/-- The quotient of two integer texts, blanks around each being ignored. -/
def quotient? (above below : List Char) : Option Rat := do
  let n ← integer? (Text.trim above)
  let d ← integer? (Text.trim below)
  if d = 0 then none else some (Rat.divInt n d)

/-- The number whose digits stand before and after a decimal point, to all of which a sign
applies. -/
def pointed? (whole places : List Char) : Option Rat :=
  if places.all Char.isDigit then
    (integer? (whole ++ places)).map fun n => mkRat n (Nat.pow 10 places.length)
  else none

/-- The number a text denotes: a quotient, a decimal or an integer, by its slash or its point. -/
def number? (text : List Char) : Option Rat :=
  let cs := Text.trim text
  match splitAtFirst '/' cs with
  | some (above, below) => quotient? above below
  | none =>
    match splitAtFirst '.' cs with
    | some (whole, places) => pointed? whole places
    | none => (integer? cs).map fun n => (n : Rat)

/-- Whether a number text has a decimal point, which asks for a decimal display. -/
def hasPoint (text : List Char) : Bool :=
  text.contains '.'

/-- The decimal digits of an integer, after a minus sign if it is negative. -/
def integerText : Int → String
  | .ofNat n => n.repr
  | .negSucc n => "-" ++ (n + 1).repr

/-- A rational in lowest terms: `n`, or `n/d` if it is no integer. -/
def fractionText (q : Rat) : String :=
  if q.den = 1 then integerText q.num else integerText q.num ++ "/" ++ q.den.repr

end WorkedAlgebra.Numeral
