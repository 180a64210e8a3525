import WorkedAlgebra.Value.Basic
import WorkedAlgebra.Operator

/-!
# Worked solutions

What is kept of a computation: the steps of each operation, and the operations of an expression.
-/

namespace WorkedAlgebra

/-- An intermediate result as it is shown, with an optional note. -/
structure Step where
  value : Value
  note : Option String
deriving DecidableEq, Repr

namespace Step

def plain (value : Value) : Step := ⟨value, none⟩

def noted (value : Value) (note : String) : Step := ⟨value, some note⟩

end Step

/-- One operation that was worked: its operator, its inputs, its answer and the steps to it. -/
structure Solution where
  operator : Operator
  inputs : List Value
  answer : Value
  steps : List Step
deriving DecidableEq, Repr

/-- The solution whose steps end with its answer. -/
def Solution.record (operator : Operator) (inputs : List Value) (answer : Value)
    (steps : List Step) : Solution :=
  ⟨operator, inputs, answer, steps ++ [.plain answer]⟩

/-- The solutions of an expression. A leaf stands where nothing had to be worked. -/
inductive WorkTree
  | leaf
  | node (solution : Solution) (first second : WorkTree)
deriving DecidableEq, Repr

namespace WorkTree

def isLeaf : WorkTree → Bool
  | leaf => true
  | node .. => false

def answer? : WorkTree → Option Value
  | leaf => none
  | node solution _ _ => some solution.answer

/-- The solutions in the order of working. -/
def solutions : WorkTree → List Solution
  | leaf => []
  | node solution first second => first.solutions ++ second.solutions ++ [solution]

def trace : WorkTree → List Step
  | leaf => []
  | node solution first second => first.trace ++ second.trace ++ solution.steps

def size : WorkTree → Nat
  | leaf => 0
  | node _ first second => first.size + second.size + 1

end WorkTree
end WorkedAlgebra
