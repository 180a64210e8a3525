import WorkedAlgebra.Report

/-!
# Faults of token lists

Why a token list is no expression, and where.
-/

namespace WorkedAlgebra

/-- A defect of a token list. -/
inductive ParseFault
  | expressionRequired
  | closeWithoutOpen (position : Nat)
  /-- The brackets do not balance in number; the position is that of the last one. -/
  | unbalancedBrackets (opens closes position : Nat)
  | unpairedBracket (position : Nat)
  /-- An operator lacks its operand; it is named when its surroundings were read. -/
  | missingOperand (position : Nat) (op : Option Operator)
  | missingOperands (position : Nat) (op : Option Operator)
  | adjacentValues (position : Nat)
  /-- A window of several tokens has no operator outside its brackets. -/
  | adjacentOperands (position : Nat)
  | emptyBrackets (position : Nat)
  /-- An operator with one operand has something on its left. -/
  | unexpectedLeftOperand (position : Nat) (op : Operator)
deriving DecidableEq, Repr

namespace ParseFault

def code : ParseFault → UInt16
  | expressionRequired => 100
  | closeWithoutOpen _ => 101
  | unbalancedBrackets .. => 102
  | unpairedBracket _ => 103
  | missingOperand .. => 104
  | missingOperands .. => 105
  | adjacentValues _ => 106
  | adjacentOperands _ => 106
  | emptyBrackets _ => 107
  | unexpectedLeftOperand .. => 108

def message : ParseFault → String
  | expressionRequired => "expression required"
  | closeWithoutOpen _ => "close bracket without open bracket"
  | unbalancedBrackets opens closes _ =>
    "unbalanced brackets: " ++ opens.repr ++ " open, " ++ closes.repr ++ " close"
  | unpairedBracket _ => "unpaired bracket"
  | missingOperand .. => "unary operator requires an operand"
  | missingOperands .. => "binary operator requires two operands"
  | adjacentValues _ => "two operands in a row need an operator between them"
  | adjacentOperands _ => "operands need an operator between them"
  | emptyBrackets _ => "empty brackets"
  | unexpectedLeftOperand _ op => op.name ++ " takes a single operand on its right"

def position? : ParseFault → Option Nat
  | expressionRequired => none
  | closeWithoutOpen p | unbalancedBrackets _ _ p | unpairedBracket p | missingOperand p _
  | missingOperands p _ | adjacentValues p | adjacentOperands p | emptyBrackets p
  | unexpectedLeftOperand p _ => some p

def operator? : ParseFault → Option Operator
  | missingOperand _ op | missingOperands _ op => op
  | unexpectedLeftOperand _ op => some op
  | _ => none

def report (f : ParseFault) : Report :=
  { Report.ofCode f.code f.message with
    position := f.position?.map UInt64.ofNat
    operator := f.operator? }

end ParseFault
end WorkedAlgebra
