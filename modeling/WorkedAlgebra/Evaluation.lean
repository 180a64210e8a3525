import WorkedAlgebra.Expr.Basic
import WorkedAlgebra.Method.Binding

/-!
# Working expressions

An expression is worked from its leaves to its root, the first operand before the second, and the
first fault ends the work. An operator without a method is reported before its operands are worked.
-/

namespace WorkedAlgebra

/-- The method of an operator, or the fault that it has none. -/
def Operator.method (op : Operator) : Except EvalFault Method :=
  match op.method? with
  | some method => .ok method
  | none => .error (.unsupported op)

/-- A method applied to operands, which is reported once it succeeded. -/
def Method.perform (method : Method) (op : Operator) (first : Option Value) (second : Value) :
    Traced EvalFault Solution := do
  let solution ← method.apply op first second
  .emit (.worked solution)
  pure solution

namespace Expr

/-- The solutions of an expression and the value that it comes to. -/
def work : Expr → Traced EvalFault (WorkTree × Value)
  | value v => pure (.leaf, v)
  | unary op operand => do
    let method ← .ofExcept op.method
    let (second, b) ← operand.work
    let solution ← method.perform op none b
    pure (.node solution .leaf second, solution.answer)
  | binary op left right => do
    let method ← .ofExcept op.method
    let (first, a) ← left.work
    let (second, b) ← right.work
    let solution ← method.perform op (some a) b
    pure (.node solution first second, solution.answer)

/-- The solutions of an expression, with what is reported on the way. -/
def evaluateTraced (e : Expr) : Traced EvalFault WorkTree :=
  Prod.fst <$> e.work

/-- The solutions of an expression; there are none for a value. -/
def evaluate (e : Expr) : Except EvalFault WorkTree :=
  e.evaluateTraced.outcome

/-- The work on an expression with **room for so many operations at one time**, which ends with the
fault `none` where an operation finds no room left. -/
def workWithin : Nat → Expr → Traced (Option EvalFault) (WorkTree × Value)
  | _, value v => pure (.leaf, v)
  | 0, _ => .fail none
  | room + 1, unary op operand => do
    let method ← (Traced.ofExcept op.method).mapFault some
    let (second, b) ← workWithin room operand
    let solution ← (method.perform op none b).mapFault some
    pure (.node solution .leaf second, solution.answer)
  | room + 1, binary op left right => do
    let method ← (Traced.ofExcept op.method).mapFault some
    let (first, a) ← workWithin room left
    let (second, b) ← workWithin room right
    let solution ← (method.perform op (some a) b).mapFault some
    pure (.node solution first second, solution.answer)

end Expr

/-- The number of operations worked so far. -/
structure Evaluator where
  operations : Nat
deriving DecidableEq, Repr

/-- Work that an evaluator does. It may fail, and the evaluator is kept when it does. -/
abbrev Counted := ExceptT EvalFault (StateM Evaluator)

namespace Evaluator

def fresh : Evaluator := ⟨0⟩

/-- A method applied to operands, which counts once it succeeded. -/
def perform (method : Method) (op : Operator) (first : Option Value) (second : Value) :
    Counted Solution := do
  let solution ← ofExcept (method.apply op first second).outcome
  modify fun ev => ⟨ev.operations + 1⟩
  pure solution

/-- The work on an expression, done by an evaluator. -/
def work : Expr → Counted (WorkTree × Value)
  | .value v => pure (.leaf, v)
  | .unary op operand => do
    let method ← ofExcept op.method
    let (second, b) ← work operand
    let solution ← perform method op none b
    pure (.node solution .leaf second, solution.answer)
  | .binary op left right => do
    let method ← ofExcept op.method
    let (first, a) ← work left
    let (second, b) ← work right
    let solution ← perform method op (some a) b
    pure (.node solution first second, solution.answer)

/-- An expression worked, and the evaluator afterwards. Operations before a fault count. -/
def evaluate (ev : Evaluator) (e : Expr) : Except EvalFault WorkTree × Evaluator :=
  (Prod.fst <$> work e).run.run ev

/-- Several expressions worked in turn, with the evaluator after each. -/
def evaluateAll (ev : Evaluator) : List Expr → List (Except EvalFault WorkTree × Evaluator)
  | [] => []
  | e :: es => ev.evaluate e :: (ev.evaluate e).2.evaluateAll es

end Evaluator
end WorkedAlgebra
