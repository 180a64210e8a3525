import WorkedAlgebra.Token

/-!
# Expressions

An expression is a tree of operators over values.
-/

namespace WorkedAlgebra

inductive Expr
  | value (v : Value)
  | unary (op : Operator) (operand : Expr)
  | binary (op : Operator) (first second : Expr)
deriving DecidableEq, Repr

namespace Expr

def value? : Expr → Option Value
  | value v => some v
  | _ => none

/-- The fully bracketed text of an expression. -/
def text : Expr → String
  | value v => v.text
  | unary op operand => op.symbol ++ "(" ++ operand.text ++ ")"
  | binary op first second => "(" ++ first.text ++ " " ++ op.symbol ++ " " ++ second.text ++ ")"

def size : Expr → Nat
  | value _ => 0
  | unary _ operand => operand.size + 1
  | binary _ first second => first.size + second.size + 1

/-- The height of an expression; a value has height zero. -/
def depth : Expr → Nat
  | value _ => 0
  | unary _ operand => operand.depth + 1
  | binary _ first second => max first.depth second.depth + 1

end Expr
end WorkedAlgebra
