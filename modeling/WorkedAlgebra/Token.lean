import WorkedAlgebra.Operator
import WorkedAlgebra.Value.Basic

/-!
# Tokens

An expression arrives as a list of tokens from left to right: values, operators and brackets.
-/

namespace WorkedAlgebra

inductive Bracket
  | opening
  | closing
deriving DecidableEq, Repr

/-- One element of an expression as it arrives. -/
inductive Token
  | value (v : Value)
  | operator (op : Operator)
  | bracket (b : Bracket)
deriving DecidableEq, Repr

namespace Token

def value? : Token → Option Value
  | value v => some v
  | _ => none

def operator? : Token → Option Operator
  | operator op => some op
  | _ => none

def bracket? : Token → Option Bracket
  | bracket b => some b
  | _ => none

def isValue (t : Token) : Bool := t.value?.isSome

def isOperator (t : Token) : Bool := t.operator?.isSome

def isUnary (t : Token) : Bool := t.operator?.any Operator.isUnary

def isBinary (t : Token) : Bool := t.operator?.any Operator.isBinary

def isOpening (t : Token) : Bool := t.bracket? == some .opening

def isClosing (t : Token) : Bool := t.bracket? == some .closing

def text : Token → String
  | value v => v.text
  | operator op => op.symbol
  | bracket .opening => "("
  | bracket .closing => ")"

end Token
end WorkedAlgebra
