import WorkedAlgebra.Solution
import WorkedAlgebra.Wire.Token

/-!
# Solutions as JSON

Steps, solutions and work trees are records. What was worked is taken as it is written: nothing is
worked again on reading.
-/

namespace WorkedAlgebra

open Json

namespace Step

def toJson (s : Step) : Json :=
  .record (("value", s.value.toJson) :: optionalMember "description" .text s.note)

structure Draft where
  value : Option Value
  note : Option (Option String)

def slots (depth : Nat) : List (Slot Draft) :=
  [needed "value" Draft.value (fun d v => { d with value := some v }) (Value.read depth),
    spare "description" Draft.note (fun d v => { d with note := some v }) (readOption readString)]

def read : Reader Step :=
  readRecord slots ⟨none, none⟩ fun d => do pure ⟨← required d.value, d.note.join⟩

end Step

namespace Solution

def toJson (s : Solution) : Json :=
  .record
    [("operator", s.operator.toJson), ("inputs", .ofList Value.toJson s.inputs),
      ("answer", s.answer.toJson), ("steps", .ofList Step.toJson s.steps)]

structure Draft where
  operator : Option Operator
  inputs : Option (List Value)
  answer : Option Value
  steps : Option (List Step)

def slots (depth : Nat) : List (Slot Draft) :=
  [needed "operator" Draft.operator (fun d v => { d with operator := some v })
      (Operator.read depth),
    needed "inputs" Draft.inputs (fun d v => { d with inputs := some v })
      (readList Value.read depth),
    needed "answer" Draft.answer (fun d v => { d with answer := some v }) (Value.read depth),
    needed "steps" Draft.steps (fun d v => { d with steps := some v }) (readList Step.read depth)]

def read : Reader Solution :=
  readRecord slots ⟨none, none, none, none⟩ fun d => do
    pure ⟨← required d.operator, ← required d.inputs, ← required d.answer, ← required d.steps⟩

end Solution

namespace WorkTree

/-- A work tree as JSON; a leaf below an operation is left out. -/
def toJson : WorkTree → Json
  | leaf => .null
  | node solution first second =>
    .record (("solution", solution.toJson) ::
      ((if first.isLeaf then [] else [("first", first.toJson)]) ++
        if second.isLeaf then [] else [("second", second.toJson)]))

structure Draft where
  solution : Option Solution
  first : Option (Option WorkTree)
  second : Option (Option WorkTree)

/-- The members of an operation of a work tree, where `readOperand` reads those below it. -/
def slots (depth : Nat) (readOperand : Reading WorkTree) : List (Slot Draft) :=
  [needed "solution" Draft.solution (fun d v => { d with solution := some v })
      (Solution.read depth),
    spare "first" Draft.first (fun d v => { d with first := some v }) (readOption readOperand),
    spare "second" Draft.second (fun d v => { d with second := some v }) (readOption readOperand)]

/-- A work tree from JSON, with at least one operation. -/
def read : Reader WorkTree
  | 0 => malformed
  | depth + 1 => do
    let d ← readDraft (slots depth (read depth)) ⟨none, none, none⟩
    pure (.node (← required d.solution) (d.first.join.getD leaf) (d.second.join.getD leaf))

end WorkTree
end WorkedAlgebra
