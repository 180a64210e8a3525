import WorkedAlgebra.Method.Written
import WorkedAlgebra.Value.Grid

/-!
# Row operations

The elementary row operations, each with its effect on a grid and the note that names it.
-/

namespace WorkedAlgebra

/-- An elementary row operation on a grid of `r` rows. -/
inductive RowOp (r : Nat)
  | swap (i j : Fin r)
  | scale (i : Fin r) (factor : Rat)
  /-- A multiple of row `j` is subtracted from row `i`. -/
  | subtract (i : Fin r) (factor : Rat) (j : Fin r)
deriving DecidableEq, Repr

namespace RowOp

variable {r c : Nat}

def apply (op : RowOp r) (g : Grid r c) : Grid r c :=
  match op with
  | swap i j => .ofFn fun a b =>
    if a = i then g.get j b else if a = j then g.get i b else g.get a b
  | scale i factor => .ofFn fun a b => if a = i then factor * g.get i b else g.get a b
  | subtract i factor j => .ofFn fun a b =>
    if a = i then g.get i b - factor * g.get j b else g.get a b

def isSwap : RowOp r → Bool
  | swap .. => true
  | _ => false

/-- The name of a row; rows count from one. -/
def rowName (i : Fin r) : String :=
  "R" ++ (i.val + 1).repr

/-- The note that names a row operation. Subtracting a negative multiple is written as adding. -/
def note : RowOp r → String
  | swap i j => rowName i ++ " <-> " ++ rowName j
  | scale i factor => rowName i ++ " = " ++ Written.coefficient factor ++ rowName i
  | subtract i factor j =>
    rowName i ++ " = " ++ rowName i ++ (if factor < 0 then " + " else " - ") ++
      Written.coefficient (if factor < 0 then -factor else factor) ++ rowName j

def applyAll (ops : List (RowOp r)) (g : Grid r c) : Grid r c :=
  ops.foldl (fun h op => op.apply h) g

/-- A list of row operations, each with the grid after it. -/
def replay (g : Grid r c) : List (RowOp r) → List (RowOp r × Grid r c)
  | [] => []
  | op :: ops => (op, op.apply g) :: replay (op.apply g) ops

end RowOp
end WorkedAlgebra
