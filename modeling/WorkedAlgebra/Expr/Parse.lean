import WorkedAlgebra.Expr.Basic
import WorkedAlgebra.Expr.Neighbours
import WorkedAlgebra.Expr.Window

/-!
# Reading expressions

The second pass splits a window of tokens at the operator that is applied last and reads what
stands on both sides. A window carries the position at which it starts, so that every defect is
reported at its place in the whole list.
-/

namespace WorkedAlgebra.Expr

open Window

def ofToken (position : Nat) : Token → Except ParseFault Expr
  | .value v => .ok (.value v)
  | .operator op =>
    .error (if op.isUnary then .missingOperand position none else .missingOperands position none)
  | .bracket _ => .error (.unpairedBracket position)

/-- An operator applied to what was read on its two sides. -/
def apply (op : Operator) (position : Nat) :
    Option Expr → Option Expr → Except ParseFault Expr
  | none, some operand =>
    if op.isUnary then .ok (.unary op operand) else .error (.missingOperands position (some op))
  | some first, some second =>
    if op.isUnary then .error (.unexpectedLeftOperand position op)
    else .ok (.binary op first second)
  | some _, none =>
    .error (if op.isUnary then .unexpectedLeftOperand position op
      else .missingOperands position (some op))
  | none, none =>
    .error (if op.isUnary then .missingOperand position (some op)
      else .missingOperands position (some op))

/-- The expression of a window that starts at position `start`. Of a window of several tokens
without an operator outside its brackets a defect inside a group comes first. -/
def build (start : Nat) (w : List Token) : Traced ParseFault (Option Expr) :=
  match _h : unwrap? w with
  | some inner => do
    .emit (.unwrapped start (start + w.length - 1))
    build (start + 1) inner
  | none =>
    if w.length ≤ 1 then .ofExcept (w.head?.mapM (ofToken start))
    else
      match _h : root? w with
      | some (i, op) => do
        .emit (.split start (start + w.length) op (start + i))
        let first ← build start (w.take i)
        let second ← build (start + i + 1) (w.drop (i + 1))
        some <$> .ofExcept (apply op (start + i) first second)
      | none => do
        (groups w).attach.forM fun ⟨g, _⟩ => discard (build (start + g.1) (slice w g.1 g.2))
        .fail (.adjacentOperands start)
termination_by w.length
decreasing_by
  · have := length_of_unwrap? _h
    omega
  · have := lt_of_root? _h
    simp only [List.length_take]
    omega
  · have := lt_of_root? _h
    simp only [List.length_drop]
    omega
  · exact length_slice_lt_of_mem_groups (by assumption)

/-- The expression of a token list, whether or not it has passed the checks on neighbours. -/
def buildAll (tokens : List Token) : Traced ParseFault (Option Expr) :=
  build 0 tokens

/-- The expression of the tokens from position `start` up to position `stop`. -/
def buildRange (tokens : List Token) (start stop : Nat) : Traced ParseFault (Option Expr) :=
  build start (slice tokens start stop)

/-- The expression of a token list that passes the checks on neighbours. -/
def read (tokens : List Token) : Traced ParseFault Expr := do
  validate tokens
  match ← buildAll tokens with
  | some e => pure e
  | none => .fail .expressionRequired

def parse (tokens : List Token) : Except ParseFault Expr :=
  (read tokens).outcome

end WorkedAlgebra.Expr
