import WorkedAlgebra.Expr.Fault
import WorkedAlgebra.Traced
import WorkedAlgebra.Token

/-!
# Checks on neighbouring tokens

The first pass over a token list counts its brackets and looks at neighbours, and reports the first
defect it meets. What these rules cannot see is left to the second pass.
-/

namespace WorkedAlgebra

/-- The brackets of a token list with their positions. -/
def brackets (tokens : List Token) : List (Bracket × Nat) :=
  tokens.zipIdx.filterMap fun p => p.1.bracket?.map fun b => (b, p.2)

/-- A defect in the order or the number of the brackets. -/
def bracketFault? (tokens : List Token) : Option ParseFault :=
  match brackets tokens with
  | (.closing, i) :: _ => some (.closeWithoutOpen i)
  | bs =>
    let opens := bs.countP fun b => b.1 == .opening
    let closes := bs.countP fun b => b.1 == .closing
    if opens = closes then none
    else some (.unbalancedBrackets opens closes ((bs.getLast?.map Prod.snd).getD 0))

/-- A defect of a token that stands alone. -/
def loneFault? : Token → Option ParseFault
  | .value _ => none
  | .operator op =>
    some (if op.isUnary then .missingOperand 0 none else .missingOperands 0 none)
  | .bracket _ => some (.unpairedBracket 0)

/-- A defect of two neighbours, the second of which stands at `position`. -/
def pairFault? (position : Nat) (previous current : Token) : Option ParseFault :=
  if previous.isOperator && current.isBinary then some (.missingOperands position none)
  else if previous.isValue && current.isValue then some (.adjacentValues position)
  else if previous.isUnary && current.isClosing then some (.missingOperand (position - 1) none)
  else if previous.isOpening && current.isClosing then some (.emptyBrackets (position - 1))
  else none

/-- The first defect of two neighbours in a list that starts at position `i`. -/
def neighbourFault? (i : Nat) : List Token → Option ParseFault
  | [] => none
  | [_] => none
  | previous :: current :: rest =>
    (pairFault? (i + 1) previous current).or (neighbourFault? (i + 1) (current :: rest))

def lastFault? (position : Nat) (token : Token) : Option ParseFault :=
  if token.isUnary then some (.missingOperand position none)
  else if token.isBinary then some (.missingOperands position none)
  else none

def severalFault? (first : Token) (rest : List Token) : Option ParseFault :=
  if first.isBinary then some (.missingOperands 0 none)
  else (neighbourFault? 0 (first :: rest)).or
    (lastFault? rest.length ((first :: rest).getLast (by simp)))

/-- The first defect that the checks on neighbours find. -/
def localFault? : List Token → Option ParseFault
  | [] => some .expressionRequired
  | first :: rest =>
    (bracketFault? (first :: rest)).or
      (if rest.isEmpty then loneFault? first else severalFault? first rest)

/-- The checks on neighbours. A list of several tokens that passes them is reported. -/
def validate (tokens : List Token) : Traced ParseFault Unit :=
  match localFault? tokens with
  | some fault => .fail fault
  | none => if tokens.length ≤ 1 then pure () else .emit (.validated tokens.length)

end WorkedAlgebra
